import CoreShell.Proofs.Verdict
import CoreShell.Proofs.WellFormed
import CoreShell.Session.Run

/-!
# Steps of a Session

A round makes many small changes to one session, each visible to the next.
`Step` says once what such a change can be: a unit without a body of its own
starts to wait on its overriders, a unit with calls starts to wait on them, or
a unit is given its verdict. Everything that a round does is a chain of steps.

What makes the steps fit together is that a session is always current between
two of them: `Entry` says for every unit how its grade, its floor and its place
among the pending units go together. In particular, a grade that was decided is
still the verdict on its unit, whatever has been decided since.

## Main definitions

* `Subject`: A unit that is up to the rules.
* `Session.Entry`: How the tables of a session describe a unit.
* `Session.Current`: A session whose tables describe its frozen program.
* `Session.Step`: One change of a session.
* `Session.Steps`: A chain of changes.

## Theorems

* `reset_current`: A session that starts over is current.
* `Step.agrees`: No step revises a final grade.
* `Step.gradeOf_cases`: What a step makes of a grade.
* `Step.current`: Every step leaves a session current.
* `judgeLocally_step`, `propagate_cases`, `resolve_cases`: The rules make steps,
  and are quiet only when there is no verdict.
-/

namespace CoreShell

/-- A unit that is up to the rules: it was submitted, and the catalogue does
    not list it. -/
structure Subject (catalog : Catalog) (p : Program) (id : UnitId) (u : CodeUnit) : Prop where
  unit : p.units[id]? = some u
  submitted : u.submitted = true
  unlisted : catalog.lookup u.qualified = none

theorem Catalog.lookup_isFinal {c : Catalog} {qualified : String} {g : Grade}
    (h : c.lookup qualified = some g) : g.isFinal = true := by
  rw [lookup] at h
  split_ifs at h <;> simp only [Option.some.injEq] at h <;> rw [← h] <;> rfl

theorem gradeAt_set_self {grades : Array Grade} {id : UnitId} (g : Grade)
    (h : id < grades.size) : gradeAt (grades.setIfInBounds id g) id = g := by
  rw [gradeAt, Array.getD_eq_getD_getElem?, Array.getElem?_setIfInBounds_self_of_lt h,
    Option.getD_some]

theorem gradeAt_set_of_ne {grades : Array Grade} {id j : UnitId} (g : Grade) (h : j ≠ id) :
    gradeAt (grades.setIfInBounds id g) j = gradeAt grades j := by
  rw [gradeAt, gradeAt, Array.getD_eq_getD_getElem?, Array.getD_eq_getD_getElem?,
    Array.getElem?_setIfInBounds_ne fun hc => h hc.symm]

namespace Session

theorem mem_insertAscending (n m : Nat) (l : List Nat) :
    m ∈ insertAscending n l ↔ m = n ∨ m ∈ l := by
  induction l with
  | nil => simp [insertAscending]
  | cons k rest ih =>
      rw [insertAscending]
      by_cases hlt : n < k
      · rw [if_pos hlt, List.mem_cons]
      · rw [if_neg hlt]
        by_cases heq : n = k
        · rw [if_pos heq, heq, List.mem_cons]
          tauto
        · rw [if_neg heq, List.mem_cons, ih, List.mem_cons]
          tauto

theorem insertAscending_pairwise {n : Nat} {l : List Nat} (h : l.Pairwise (· < ·)) :
    (insertAscending n l).Pairwise (· < ·) := by
  induction l with
  | nil => simp [insertAscending]
  | cons k rest ih =>
      rw [List.pairwise_cons] at h
      rw [insertAscending]
      by_cases hlt : n < k
      · rw [if_pos hlt]
        refine List.pairwise_cons.2 ⟨fun m hm => ?_, List.pairwise_cons.2 h⟩
        rcases List.mem_cons.1 hm with rfl | hm
        · exact hlt
        · exact Nat.lt_trans hlt (h.1 m hm)
      · rw [if_neg hlt]
        by_cases heq : n = k
        · rw [if_pos heq]
          exact List.pairwise_cons.2 h
        · rw [if_neg heq]
          refine List.pairwise_cons.2 ⟨fun m hm => ?_, ih h.2⟩
          rcases (mem_insertAscending n m rest).1 hm with rfl | hm
          · omega
          · exact h.1 m hm

/-- How the tables of a session describe a unit. -/
inductive Entry (s : Session) (id : UnitId) (u : CodeUnit) : Prop
  /-- The catalogue lists the unit. -/
  | listed {g : Grade} (listed : s.catalog.lookup u.qualified = some g)
      (grade : s.gradeOf id = g) (closed : id ∉ s.pending)
  /-- Nothing is known of an external unit. -/
  | foreign (unlisted : s.catalog.lookup u.qualified = none) (external : u.submitted = false)
      (grade : s.gradeOf id = .unchecked) (closed : id ∉ s.pending)
  /-- Nobody has looked at the unit. -/
  | fresh (subject : Subject s.catalog s.program id u) (grade : s.gradeOf id = .unchecked)
      (closed : id ∉ s.pending)
  /-- The unit waits on its overriders. -/
  | opened (subject : Subject s.catalog s.program id u) (grade : s.gradeOf id = .unsure)
      (pending : id ∈ s.pending) (judged : s.axis.judge s.program u = .dispatch)
  /-- The unit waits on its calls. -/
  | waiting {floor : Grade} (subject : Subject s.catalog s.program id u)
      (grade : s.gradeOf id = .unsure) (closed : id ∉ s.pending)
      (judged : s.axis.judge s.program u = .provisional floor) (calls : u.hasCalls = true)
      (noted : s.floors.getD id none = some floor)
  /-- The unit has its verdict. -/
  | decided {g : Grade} (subject : Subject s.catalog s.program id u) (grade : s.gradeOf id = g)
      (closed : id ∉ s.pending) (verdict : UnitVerdict s.axis s.program u s.gradeOf g)

/-- The tables of a session describe its frozen program. -/
structure Current (s : Session) : Prop where
  wellFormed : s.program.WellFormed
  frozen : s.program.frozen = true
  grades_size : s.grades.size = s.program.units.size
  floors_size : s.floors.size = s.program.units.size
  pending_sorted : s.pending.Pairwise (· < ·)
  pending_lt : ∀ id ∈ s.pending, id < s.program.units.size
  entry : ∀ (id : UnitId) (u : CodeUnit), s.program.units[id]? = some u → s.Entry id u

theorem reset_gradeOf {s : Session} {id : UnitId} {u : CodeUnit}
    (hu : s.program.units[id]? = some u) : s.reset.gradeOf id = s.initialGrade u := by
  simp only [gradeOf, gradeAt, reset, Array.getD_eq_getD_getElem?, Array.getElem?_map, hu,
    Option.map_some, Option.getD_some]

/-- A session that starts over is current. -/
theorem reset_current {s : Session} (hp : s.program.WellFormed)
    (hfrozen : s.program.frozen = true) : s.reset.Current := by
  refine ⟨hp, hfrozen, by simp only [reset, Array.size_map], by simp only [reset, Array.size_map],
    List.Pairwise.nil, fun id hid => absurd hid (by simp only [reset, List.not_mem_nil,
      not_false_eq_true]), ?_⟩
  intro id u hu
  have hclosed : id ∉ s.reset.pending := by
    simp only [reset, List.not_mem_nil, not_false_eq_true]
  have hinit := reset_gradeOf (s := s) hu
  rcases hlist : s.catalog.lookup u.qualified with _ | g
  · rw [initialGrade, hlist, Option.getD_none] at hinit
    by_cases hsub : u.submitted = true
    · exact .fresh ⟨hu, hsub, hlist⟩ hinit hclosed
    · exact .foreign hlist (by simpa using hsub) hinit hclosed
  · rw [initialGrade, hlist, Option.getD_some] at hinit
    exact .listed hlist hinit hclosed

namespace Current

variable {s : Session} (hs : s.Current) {id : UnitId} {u : CodeUnit}
include hs

theorem id_lt_grades (hu : s.program.units[id]? = some u) : id < s.grades.size := by
  rw [hs.grades_size]
  exact lt_size_of_getElem? hu

theorem id_eq (hu : s.program.units[id]? = some u) : u.id = id :=
  hs.wellFormed.unit_id id u hu

theorem mem_units (hu : s.program.units[id]? = some u) : u ∈ s.program.units.toList := by
  rw [hs.wellFormed.mem_units, hs.id_eq hu]
  exact hu

/-- Positions without a unit are unchecked. -/
theorem exists_unit (h : s.gradeOf id ≠ .unchecked) : ∃ u, s.program.units[id]? = some u := by
  refine getElem?_of_lt_size ?_
  by_contra hge
  rw [← hs.grades_size] at hge
  refine h ?_
  rw [gradeOf, gradeAt, Array.getD_eq_getD_getElem?,
    Array.getElem?_eq_none (Nat.le_of_not_lt hge), Option.getD_none]

/-- A submitted unit that nobody has looked at is up to the rules. -/
theorem subject_of_unchecked (hu : s.program.units[id]? = some u) (hsub : u.submitted = true)
    (hgrade : s.gradeOf id = .unchecked) :
    Subject s.catalog s.program id u ∧ id ∉ s.pending := by
  cases hs.entry id u hu with
  | listed hlist hg _ =>
      exact absurd (Catalog.lookup_isFinal hlist) (by rw [← hg, hgrade]; decide)
  | foreign _ hext _ _ => exact absurd (hext.symm.trans hsub) (by decide)
  | fresh hsubject _ hclosed => exact ⟨hsubject, hclosed⟩
  | opened _ hg _ _ => exact absurd (hg.symm.trans hgrade) (by decide)
  | waiting _ hg _ _ _ _ => exact absurd (hg.symm.trans hgrade) (by decide)
  | decided _ hg _ hverdict => exact absurd hverdict.isFinal (by rw [← hg, hgrade]; decide)

/-- An unsure unit that is not pending waits on its calls. -/
theorem waiting_of_unsure (hu : s.program.units[id]? = some u) (hgrade : s.gradeOf id = .unsure)
    (hclosed : id ∉ s.pending) :
    ∃ floor, Subject s.catalog s.program id u ∧
      s.axis.judge s.program u = .provisional floor ∧ u.hasCalls = true ∧
      s.floors.getD id none = some floor := by
  cases hs.entry id u hu with
  | listed hlist hg _ =>
      exact absurd (Catalog.lookup_isFinal hlist) (by rw [← hg, hgrade]; decide)
  | foreign _ _ hg _ => exact absurd (hg.symm.trans hgrade) (by decide)
  | fresh _ hg _ => exact absurd (hg.symm.trans hgrade) (by decide)
  | opened _ _ hpending _ => exact absurd hpending hclosed
  | waiting hsubject _ _ hjudge hcalls hfloor => exact ⟨_, hsubject, hjudge, hcalls, hfloor⟩
  | decided _ hg _ hverdict => exact absurd hverdict.isFinal (by rw [← hg, hgrade]; decide)

/-- A final grade of a unit that is up to the rules is the verdict on it. -/
theorem verdict_of_final (hsubject : Subject s.catalog s.program id u)
    (hfinal : (s.gradeOf id).isFinal = true) :
    UnitVerdict s.axis s.program u s.gradeOf (s.gradeOf id) := by
  cases hs.entry id u hsubject.unit with
  | listed hlist _ _ => exact absurd (hlist.symm.trans hsubject.unlisted) (by simp)
  | foreign _ _ hg _ => exact absurd hfinal (by rw [hg]; decide)
  | fresh _ hg _ => exact absurd hfinal (by rw [hg]; decide)
  | opened _ hg _ _ => exact absurd hfinal (by rw [hg]; decide)
  | waiting _ hg _ _ _ _ => exact absurd hfinal (by rw [hg]; decide)
  | decided _ hg _ hverdict =>
      rw [hg]
      exact hverdict

/-- The catalogue has the last word on a unit. -/
theorem gradeOf_listed (hu : s.program.units[id]? = some u) {g : Grade}
    (hlist : s.catalog.lookup u.qualified = some g) : s.gradeOf id = g := by
  have hsubject : ¬ Subject s.catalog s.program id u :=
    fun h => absurd (hlist.symm.trans h.unlisted) (by simp)
  cases hs.entry id u hu with
  | listed hlist' hg _ => rw [hg, Option.some.inj (hlist'.symm.trans hlist)]
  | foreign hunlisted _ _ _ => exact absurd (hlist.symm.trans hunlisted) (by simp)
  | fresh h _ _ => exact absurd h hsubject
  | opened h _ _ _ => exact absurd h hsubject
  | waiting h _ _ _ _ _ => exact absurd h hsubject
  | decided h _ _ _ => exact absurd h hsubject

/-- A pending unit waits on its overriders. -/
theorem opened_of_pending (hpending : id ∈ s.pending) :
    ∃ u, Subject s.catalog s.program id u ∧ s.gradeOf id = .unsure ∧
      s.axis.judge s.program u = .dispatch := by
  rcases getElem?_of_lt_size (hs.pending_lt id hpending) with ⟨u, hu⟩
  cases hs.entry id u hu with
  | listed _ _ hclosed => exact absurd hpending hclosed
  | foreign _ _ _ hclosed => exact absurd hpending hclosed
  | fresh _ _ hclosed => exact absurd hpending hclosed
  | opened hsubject hg _ hjudge => exact ⟨u, hsubject, hg, hjudge⟩
  | waiting _ _ hclosed _ _ _ => exact absurd hpending hclosed
  | decided _ _ hclosed _ => exact absurd hpending hclosed

end Current

/-- The reason under which a unit that fails is reported. -/
def failureReason (s : Session) (u : CodeUnit) : Reason :=
  match s.axis.judge s.program u with
  | .rejected finding => finding.reason
  | _ => .impureCall

/-- The log after a unit got its verdict. A failing unit is reported, and no
    other. -/
def Noted (s : Session) (u : CodeUnit) (g : Grade) (log : Log) : Prop :=
  if g = .not then
    ∃ message, log = s.log.record
      { owner := s.program.typeName u.owner, unit := u.qualified, reason := s.failureReason u,
        message }
  else
    log = s.log

theorem Noted.cases {s : Session} {u : CodeUnit} {g : Grade} {log : Log} (h : s.Noted u g log) :
    (g = .not ∧ ∃ message, log = s.log.record
      { owner := s.program.typeName u.owner, unit := u.qualified, reason := s.failureReason u,
        message }) ∨ (g ≠ .not ∧ log = s.log) := by
  rw [Noted] at h
  by_cases hg : g = .not
  · rw [if_pos hg] at h
    exact Or.inl ⟨hg, h⟩
  · rw [if_neg hg] at h
    exact Or.inr ⟨hg, h⟩

/-- The session after a unit got its verdict. -/
def conclude (s : Session) (id : UnitId) (g : Grade) (log : Log) : Session :=
  { s with
    grades := s.grades.setIfInBounds id g
    pending := s.pending.filter (· ≠ id)
    log }

/-- One change of a session. -/
inductive Step (s : Session) : Session → Prop
  /-- A unit starts to wait on its overriders. -/
  | opened {id : UnitId} {u : CodeUnit} (subject : Subject s.catalog s.program id u)
      (fresh : s.gradeOf id = .unchecked) (judged : s.axis.judge s.program u = .dispatch) :
      Step s
        { s with
          grades := s.grades.setIfInBounds id .unsure
          pending := insertAscending id s.pending }
  /-- A unit starts to wait on its calls. -/
  | waiting {id : UnitId} {u : CodeUnit} {floor : Grade}
      (subject : Subject s.catalog s.program id u) (fresh : s.gradeOf id = .unchecked)
      (judged : s.axis.judge s.program u = .provisional floor) (calls : u.hasCalls = true) :
      Step s
        { s with
          grades := s.grades.setIfInBounds id .unsure
          floors := s.floors.setIfInBounds id (some floor) }
  /-- A unit gets its verdict. -/
  | decided {id : UnitId} {u : CodeUnit} {g : Grade} {log : Log}
      (subject : Subject s.catalog s.program id u)
      (undecided : (s.gradeOf id).isTemporary = true)
      (verdict : UnitVerdict s.axis s.program u s.gradeOf g) (noted : s.Noted u g log) :
      Step s (s.conclude id g log)

/-- A chain of a number of changes. -/
inductive Steps : Nat → Session → Session → Prop
  | refl (s : Session) : Steps 0 s s
  | tail {n : Nat} {s t r : Session} (steps : Steps n s t) (step : Step t r) : Steps (n + 1) s r

section Rules

variable {s : Session} (hs : s.Current) {u : CodeUnit} (hu : s.program.units[u.id]? = some u)

/-- Nothing stops being pending with a unit that is not. -/
theorem conclude_of_closed {id : UnitId} (h : id ∉ s.pending) (g : Grade) (log : Log) :
    s.conclude id g log = { s.grade id g with log } := by
  have hfilter : s.pending.filter (· ≠ id) = s.pending :=
    List.filter_eq_self.2 fun j hj => by simpa using fun hc : j = id => h (hc ▸ hj)
  rw [conclude, hfilter, grade]

theorem noted_of_ne {g : Grade} (h : g ≠ .not) : s.Noted u g s.log := by
  rw [Noted, if_neg h]

/-- A unit that passed its local rule fails because of another one. -/
theorem noted_impureCall (h : ∀ finding, s.axis.judge s.program u ≠ .rejected finding)
    (message : String) : s.Noted u .not (s.log.record
      { owner := s.program.typeName u.owner, unit := u.qualified, reason := .impureCall,
        message }) := by
  have hreason : s.failureReason u = .impureCall := by
    rw [failureReason]
    split
    · exact absurd ‹_› (h _)
    · rfl
  rw [Noted, if_pos rfl, hreason]
  exact ⟨message, rfl⟩

include hs hu

/-- Looking at a fresh unit is a step. -/
theorem judgeLocally_step (hsub : u.submitted = true) (hgrade : s.gradeOf u.id = .unchecked) :
    s.Step (s.judgeLocally u) := by
  rcases hs.subject_of_unchecked hu hsub hgrade with ⟨hsubject, hclosed⟩
  have htemp : (s.gradeOf u.id).isTemporary = true := by rw [hgrade]; rfl
  rw [judgeLocally]
  rcases hjudge : s.axis.judge s.program u with finding | _ | floor
  · have hnoted : s.Noted u .not (s.log.record
        { owner := s.program.typeName u.owner, unit := u.qualified, reason := finding.reason,
          message := finding.message }) := by
      rw [Noted, if_pos rfl, failureReason, hjudge]
      exact ⟨finding.message, rfl⟩
    have hstep := Step.decided hsubject htemp (.rejected hjudge) hnoted
    rw [conclude_of_closed hclosed] at hstep
    exact hstep
  · exact .opened hsubject hgrade hjudge
  · by_cases hcalls : u.hasCalls = true
    · simp only [if_pos hcalls]
      exact .waiting hsubject hgrade hjudge hcalls
    · -- A unit that calls nothing keeps its floor.
      have hnone : u.targets = [] := by
        by_contra hc
        exact hcalls (u.hasCalls_iff.2 hc)
      have hverdict : UnitVerdict s.axis s.program u s.gradeOf floor := by
        refine .called hjudge (.kept ?_ ?_ ?_)
        · simp [hnone]
        · exact fun t ht => absurd (s.program.exposedTargets_subset u ht) (by simp [hnone])
        · simp [hnone]
      have hnoted : s.Noted u floor s.log :=
        noted_of_ne (by rcases judge_provisional hjudge with h | h <;> rw [h] <;> decide)
      have hstep := Step.decided hsubject htemp hverdict hnoted
      rw [conclude_of_closed hclosed] at hstep
      simp only [if_neg hcalls]
      exact hstep

/-- The call rule makes a step, or it is quiet because there is no verdict. -/
theorem propagate_cases (hgrade : s.gradeOf u.id = .unsure) (hclosed : u.id ∉ s.pending) :
    (s.propagate u = .ok { session := s } ∧ ∀ g, ¬ UnitVerdict s.axis s.program u s.gradeOf g) ∨
    ∃ t, s.propagate u = .ok { session := t, changed := true } ∧ s.Step t := by
  rcases hs.waiting_of_unsure hu hgrade hclosed with ⟨floor, hsubject, hjudge, _, hfloor⟩
  have htemp : (s.gradeOf u.id).isTemporary = true := by rw [hgrade]; rfl
  simp only [propagate, if_neg (not_not.2 hgrade), hfloor]
  rcases evaluateCalls_cases s.program s.grades floor u with
    ⟨heval, hnone⟩ | ⟨via, heval, hcalls⟩ | ⟨g, heval, hg, hcalls⟩
  · refine Or.inl ⟨by rw [heval], fun g hg => hnone g ?_⟩
    exact (unitVerdict_provisional_iff hjudge).1 hg
  · refine Or.inr ⟨_, by rw [heval], ?_⟩
    have hnoted := noted_impureCall (u := u) (s := s) (by simp [hjudge])
      (u.qualified ++ " calls " ++ s.program.unitName via ++ ", which is " ++ s.axis.failure)
    have hstep := Step.decided hsubject htemp (.called hjudge hcalls) hnoted
    rw [conclude_of_closed hclosed] at hstep
    exact hstep
  · refine Or.inr ⟨_, by rw [heval], ?_⟩
    -- Over a strict or domain floor nothing is settled as a failure.
    have hnoted : s.Noted u g s.log := by
      have hcases := judge_provisional hjudge
      refine noted_of_ne ?_
      rcases hg with rfl | rfl
      · rcases hcases with rfl | rfl <;> decide
      · rw [weakenTo_domain hcases]
        decide
    have hstep := Step.decided hsubject htemp (.called hjudge hcalls) hnoted
    rw [conclude_of_closed hclosed] at hstep
    exact hstep

/-- The dispatch rule makes a step, or it is quiet because there is no
    verdict. -/
theorem resolve_cases (hpending : u.id ∈ s.pending) :
    (s.resolve u = { session := s } ∧ ∀ g, ¬ UnitVerdict s.axis s.program u s.gradeOf g) ∨
    ∃ t, s.resolve u = { session := t, changed := true } ∧ s.Step t := by
  -- What is pending is judged by its overriders, so the other rules have no say.
  rcases hs.opened_of_pending hpending with ⟨v, hsubject, hgrade, hjudge⟩
  have hv : v = u := Option.some.inj (hsubject.unit.symm.trans hu)
  subst hv
  have htemp : (s.gradeOf v.id).isTemporary = true := by rw [hgrade]; rfl
  simp only [resolve]
  rcases resolveDispatch_cases s.program s.grades v with
    ⟨heval, hnone⟩ | ⟨via, heval, hdispatch⟩ | ⟨g, heval, hg, hdispatch⟩
  · refine Or.inl ⟨by rw [heval], fun g hg => hnone g ?_⟩
    exact (unitVerdict_dispatch_iff hjudge).1 hg
  · refine Or.inr ⟨_, by rw [heval], ?_⟩
    have hnoted := noted_impureCall (u := v) (s := s) (by simp [hjudge])
      (v.qualified ++ " dispatches to " ++ s.program.unitName via ++ ", which is " ++
        s.axis.failure)
    exact .decided hsubject htemp (.dispatched hjudge hdispatch) hnoted
  · refine Or.inr ⟨_, by rw [heval], ?_⟩
    exact .decided hsubject htemp (.dispatched hjudge hdispatch) (noted_of_ne hg)

end Rules

/-- Two sessions that classify the same program in the same way. -/
structure SameTask (s t : Session) : Prop where
  axis : t.axis = s.axis
  catalog : t.catalog = s.catalog
  program : t.program = s.program

/-- Two sessions with the same entries for a unit in their tables. -/
structure SameEntry (s t : Session) (id : UnitId) : Prop where
  grade : t.gradeOf id = s.gradeOf id
  pending : id ∈ t.pending ↔ id ∈ s.pending
  floor : t.floors.getD id none = s.floors.getD id none

theorem Step.sameTask {s t : Session} (h : s.Step t) : s.SameTask t := by
  cases h <;> exact ⟨rfl, rfl, rfl⟩

/-- An entry stays right as more is found out about other units. -/
theorem Entry.transfer {s t : Session} (htask : s.SameTask t)
    (hagrees : Agrees s.gradeOf t.gradeOf) {id : UnitId} (hsame : s.SameEntry t id) {u : CodeUnit}
    (h : s.Entry id u) : t.Entry id u := by
  rcases htask with ⟨haxis, hcatalog, hprogram⟩
  have hclosed : id ∉ s.pending → id ∉ t.pending := fun hc h' => hc (hsame.pending.1 h')
  have hsubject : Subject s.catalog s.program id u → Subject t.catalog t.program id u := by
    rw [hcatalog, hprogram]
    exact fun h' => h'
  cases h with
  | listed hlist hg hc =>
      exact .listed (by rw [hcatalog, hlist]) (hsame.grade.trans hg) (hclosed hc)
  | foreign hunlisted hext hg hc =>
      exact .foreign (by rw [hcatalog, hunlisted]) hext (hsame.grade.trans hg) (hclosed hc)
  | fresh hsub hg hc => exact .fresh (hsubject hsub) (hsame.grade.trans hg) (hclosed hc)
  | opened hsub hg hpending hjudge =>
      exact .opened (hsubject hsub) (hsame.grade.trans hg) (hsame.pending.2 hpending)
        (by rw [haxis, hprogram, hjudge])
  | waiting hsub hg hc hjudge hcalls hfloor =>
      exact .waiting (hsubject hsub) (hsame.grade.trans hg) (hclosed hc)
        (by rw [haxis, hprogram, hjudge]) hcalls (hsame.floor.trans hfloor)
  | decided hsub hg hc hverdict =>
      -- The verdict was given on less than is known now.
      refine .decided (hsubject hsub) (hsame.grade.trans hg) (hclosed hc) ?_
      rw [haxis, hprogram]
      exact hverdict.agrees hagrees

theorem agrees_of_sameEntry {s t : Session} {id : UnitId}
    (htemp : (s.gradeOf id).isTemporary = true) (h : ∀ j ≠ id, s.SameEntry t j) :
    Agrees s.gradeOf t.gradeOf := by
  intro j hfinal
  by_cases hj : j = id
  · rw [hj, Grade.isFinal_eq_not, htemp] at hfinal
    exact absurd hfinal (by decide)
  · exact (h j hj).grade

/-- The limit on rounds and the log have no part in what is current. -/
theorem Current.withLog {s : Session} (hs : s.Current) (log : Log) (maxRounds : Option Nat) :
    ({ s with log, maxRounds } : Session).Current := by
  refine ⟨hs.wellFormed, hs.frozen, hs.grades_size, hs.floors_size, hs.pending_sorted,
    hs.pending_lt, fun id u hu => ?_⟩
  have htask : s.SameTask { s with log, maxRounds } := ⟨rfl, rfl, rfl⟩
  exact (hs.entry id u hu).transfer htask (agrees_refl _) ⟨rfl, Iff.rfl, rfl⟩

section Steps

variable {s t : Session} (hs : s.Current) (h : s.Step t)
include hs h

/-- A step is about one unit, which was undecided. It leaves an entry for that
    unit and keeps those for all others. -/
theorem Step.touches : ∃ id u, Subject s.catalog s.program id u ∧
    (s.gradeOf id).isTemporary = true ∧ (∀ j ≠ id, s.SameEntry t j) ∧ t.Entry id u := by
  cases h with
  | @opened id u hsubject hfresh hjudge =>
      have hlt := hs.id_lt_grades hsubject.unit
      refine ⟨id, u, hsubject, by rw [hfresh]; rfl, fun j hj => ?_, ?_⟩
      · refine ⟨gradeAt_set_of_ne _ hj, ?_, rfl⟩
        rw [mem_insertAscending, or_iff_right hj]
      · exact .opened hsubject (gradeAt_set_self _ hlt) ((mem_insertAscending _ _ _).2 (Or.inl rfl))
          hjudge
  | @waiting id u floor hsubject hfresh hjudge hcalls =>
      have hlt := hs.id_lt_grades hsubject.unit
      have hclosed := (hs.subject_of_unchecked hsubject.unit hsubject.submitted hfresh).2
      have hfloors : id < s.floors.size := by rw [hs.floors_size, ← hs.grades_size]; exact hlt
      refine ⟨id, u, hsubject, by rw [hfresh]; rfl, fun j hj => ?_, ?_⟩
      · refine ⟨gradeAt_set_of_ne _ hj, Iff.rfl, ?_⟩
        rw [Array.getD_eq_getD_getElem?, Array.getD_eq_getD_getElem?,
          Array.getElem?_setIfInBounds_ne fun hc => hj hc.symm]
      · refine .waiting hsubject (gradeAt_set_self _ hlt) hclosed hjudge hcalls ?_
        rw [Array.getD_eq_getD_getElem?, Array.getElem?_setIfInBounds_self_of_lt hfloors,
          Option.getD_some]
  | @decided id u g log hsubject htemp hverdict hnoted =>
      have hlt := hs.id_lt_grades hsubject.unit
      have hsame : ∀ j ≠ id, s.SameEntry (s.conclude id g log) j := by
        refine fun j hj => ⟨gradeAt_set_of_ne _ hj, ?_, rfl⟩
        simp [conclude, hj]
      refine ⟨id, u, hsubject, htemp, hsame, ?_⟩
      -- The unit itself was undecided, so its own verdict did not rest on it.
      refine .decided hsubject (gradeAt_set_self _ hlt) (by simp [conclude]) ?_
      exact hverdict.agrees (agrees_of_sameEntry htemp hsame)

/-- No step revises a final grade. -/
theorem Step.agrees : Agrees s.gradeOf t.gradeOf := by
  rcases Step.touches hs h with ⟨id, u, _, htemp, hsame, _⟩
  exact agrees_of_sameEntry htemp hsame

/-- What a step makes of a grade: it is kept, becomes unsure, or becomes the
    verdict on its unit. -/
theorem Step.gradeOf_cases (j : UnitId) :
    t.gradeOf j = s.gradeOf j ∨ t.gradeOf j = .unsure ∨
      ∃ u, Subject s.catalog s.program j u ∧
        UnitVerdict s.axis s.program u s.gradeOf (t.gradeOf j) := by
  cases h with
  | @opened id u hsubject _ _ =>
      by_cases hj : j = id
      · rw [hj]
        exact Or.inr (Or.inl (gradeAt_set_self _ (hs.id_lt_grades hsubject.unit)))
      · exact Or.inl (gradeAt_set_of_ne _ hj)
  | @waiting id u floor hsubject _ _ _ =>
      by_cases hj : j = id
      · rw [hj]
        exact Or.inr (Or.inl (gradeAt_set_self _ (hs.id_lt_grades hsubject.unit)))
      · exact Or.inl (gradeAt_set_of_ne _ hj)
  | @decided id u g log hsubject _ hverdict _ =>
      by_cases hj : j = id
      · have hg : (s.conclude id g log).gradeOf id = g :=
          gradeAt_set_self _ (hs.id_lt_grades hsubject.unit)
        rw [hj]
        exact Or.inr (Or.inr ⟨u, hsubject, by rw [hg]; exact hverdict⟩)
      · exact Or.inl (gradeAt_set_of_ne _ hj)

/-- Every step leaves a session current. -/
theorem Step.current : t.Current := by
  have htask := Step.sameTask h
  have hagrees := Step.agrees hs h
  rcases Step.touches hs h with ⟨id, u, hsubject, _, hsame, hentry⟩
  -- The unit of the step has a new entry; all others keep theirs.
  have hpending_lt : ∀ j ∈ t.pending, j < s.program.units.size := by
    intro j hj
    by_cases hid : j = id
    · rw [hid]
      exact lt_size_of_getElem? hsubject.unit
    · exact hs.pending_lt j ((hsame j hid).pending.1 hj)
  have hsizes : t.grades.size = s.grades.size ∧ t.floors.size = s.floors.size := by
    cases h <;> simp [conclude]
  have hsorted : t.pending.Pairwise (· < ·) := by
    cases h with
    | opened _ _ _ => exact insertAscending_pairwise hs.pending_sorted
    | waiting _ _ _ _ => exact hs.pending_sorted
    | decided _ _ _ _ => exact hs.pending_sorted.filter _
  refine ⟨?_, ?_, ?_, ?_, hsorted, ?_, fun j v hv => ?_⟩
  · rw [htask.program]
    exact hs.wellFormed
  · rw [htask.program]
    exact hs.frozen
  · rw [hsizes.1, htask.program, hs.grades_size]
  · rw [hsizes.2, htask.program, hs.floors_size]
  · rw [htask.program]
    exact hpending_lt
  · rw [htask.program] at hv
    by_cases hid : j = id
    · rw [hid] at hv ⊢
      rw [Option.some.inj (hv.symm.trans hsubject.unit)]
      exact hentry
    · exact (hs.entry j v hv).transfer htask hagrees (hsame j hid)

end Steps

namespace Steps

theorem trans {m n : Nat} {s t r : Session} (h : Steps m s t) (h' : Steps n t r) :
    Steps (m + n) s r := by
  induction h' with
  | refl _ => exact h
  | tail _ hstep ih => exact .tail (ih h) hstep

theorem current {n : Nat} {s t : Session} (h : Steps n s t) (hs : s.Current) : t.Current := by
  induction h with
  | refl _ => exact hs
  | tail _ hstep ih => exact hstep.current (ih hs)

theorem sameTask {n : Nat} {s t : Session} (h : Steps n s t) : s.SameTask t := by
  induction h with
  | refl _ => exact ⟨rfl, rfl, rfl⟩
  | tail _ hstep ih =>
      have hlast := hstep.sameTask
      exact ⟨hlast.axis.trans ih.axis, hlast.catalog.trans ih.catalog,
        hlast.program.trans ih.program⟩

theorem maxRounds_eq {n : Nat} {s t : Session} (h : Steps n s t) : t.maxRounds = s.maxRounds := by
  induction h with
  | refl _ => rfl
  | tail _ hstep ih =>
      rw [← ih]
      cases hstep <;> rfl

end Steps

end Session

end CoreShell
