import CoreShell.Proofs.Chains
import CoreShell.Proofs.Endings
import CoreShell.Proofs.Evaluation
import Mathlib.Data.List.Chain

/-!
# Every Failure Has a Cause

A unit fails because the catalogue says so, because its own local rule rejects
it, or because of another unit that has failed already. Following the last case
from unit to unit, one comes to the unit where the failure began.

A derivation would lead to a cause as well, but maybe not through units that have
failed so far: a run that is cut short may have found one failing overrider and
not the one of the derivation. So the chains are built up with the grades, step
by step. A unit that fails now puts itself in front of the chain of the one it
fails because of, and it is not in that chain yet, since everything in there has
failed before.

## Main definitions

* `Session.FailsAlone`: Where a failure begins.
* `Session.Blames`: A chain of failing units from one unit to such a beginning.
* `Session.Explained`: Every failing unit has a chain.

## Theorems

* `UnitVerdict.not_cases`: What a failing verdict rests on.
* `Step.explained`: A step explains the failure it finds.
* `failures_have_causes`: Every failure is explained after every run of every
  history.
-/

namespace CoreShell

/-- A unit fails by its own local rule or because of another failing unit. -/
theorem UnitVerdict.not_cases {axis : Axis} {p : Program} {u : CodeUnit} {grade : UnitId → Grade}
    (h : UnitVerdict axis p u grade .not) :
    (∃ finding, axis.judge p u = .rejected finding) ∨
      (p.dispatchesVirtually u = false ∧ ∃ t ∈ p.exposedTargets u, grade t = .not) ∨
      (p.dispatchesVirtually u = true ∧ ∃ o ∈ p.overridersOf u, grade o = .not) := by
  generalize hg : Grade.not = g at h
  cases h with
  | rejected hjudge => exact Or.inl ⟨_, hjudge⟩
  | called hjudge hcalls =>
      have hfloor := judge_provisional hjudge
      refine Or.inr (Or.inl ⟨judge_provisional_body hjudge, ?_⟩)
      -- A floor is no failure, and lowering it does not make it one.
      cases hcalls with
      | absorbed _ hexposed hfails => exact ⟨_, hexposed, hfails⟩
      | lowered _ _ _ _ => exact absurd hg (by rw [weakenTo_domain hfloor]; decide)
      | kept _ _ _ => rcases hfloor with rfl | rfl <;> exact absurd hg (by decide)
  | dispatched hjudge hdispatch =>
      refine Or.inr (Or.inr ⟨judge_dispatch hjudge, ?_⟩)
      cases hdispatch with
      | strict _ _ => exact absurd hg (by decide)
      | domain _ _ _ => exact absurd hg (by decide)
      | failed ho hfails => exact ⟨_, ho, hfails⟩

namespace Session

/-- A unit that does not fail because of another one. -/
inductive FailsAlone (s : Session) (id : UnitId) : Prop
  | listed {u : CodeUnit} (unit : s.program.units[id]? = some u)
      (listed : s.catalog.lookup u.qualified = some .not)
  | rejected {u : CodeUnit} {finding : Finding} (subject : Subject s.catalog s.program id u)
      (judged : s.axis.judge s.program u = .rejected finding)

/-- A chain of failing units without repetition, each of which relies on the next
    one, from a unit to one that fails alone. -/
structure Blames (s : Session) (id : UnitId) (chain : List UnitId) : Prop where
  head : chain.head? = some id
  links : chain.IsChain s.ReliesOn
  nodup : chain.Nodup
  failing : ∀ a ∈ chain, s.gradeOf a = .not
  root : ∃ last ∈ chain.getLast?, s.FailsAlone last

/-- Every failing unit has a chain to where the failure began. -/
def Explained (s : Session) : Prop :=
  ∀ id, s.gradeOf id = .not → ∃ chain, s.Blames id chain

theorem blames_self {s : Session} {id : UnitId} (hnot : s.gradeOf id = .not)
    (halone : s.FailsAlone id) : s.Blames id [id] := by
  refine ⟨rfl, List.isChain_singleton id, List.nodup_singleton id, ?_, id, rfl, halone⟩
  intro a ha
  rw [List.mem_singleton.1 ha]
  exact hnot

theorem Blames.cons {s : Session} {a b : UnitId} {chain : List UnitId} (h : s.Blames b chain)
    (hlink : s.ReliesOn a b) (hnot : s.gradeOf a = .not) (hnew : a ∉ chain) :
    s.Blames a (a :: chain) := by
  refine ⟨rfl, List.isChain_cons.2 ⟨fun c hc => ?_, h.links⟩, List.nodup_cons.2 ⟨hnew, h.nodup⟩,
    fun c hc => ?_, ?_⟩
  · rw [h.head] at hc
    rw [← Option.some.inj hc]
    exact hlink
  · rcases List.mem_cons.1 hc with rfl | hc
    · exact hnot
    · exact h.failing c hc
  · rcases h.root with ⟨last, hlast, halone⟩
    refine ⟨last, ?_, halone⟩
    rw [List.getLast?_cons, Option.mem_def.1 hlast]
    rfl

section SameTask

variable {s t : Session} (htask : s.SameTask t)
include htask

theorem ReliesOn.sameTask {a b : UnitId} (h : s.ReliesOn a b) : t.ReliesOn a b := by
  rcases htask with ⟨_, hcatalog, hprogram⟩
  cases h with
  | call hsubject hbody hmade hexposed htarget =>
      rw [← hcatalog, ← hprogram] at hsubject
      rw [← hprogram] at hbody hexposed
      exact .call hsubject hbody hmade hexposed htarget
  | override hsubject hvirtual hoverrider =>
      rw [← hcatalog, ← hprogram] at hsubject
      rw [← hprogram] at hvirtual hoverrider
      exact .override hsubject hvirtual hoverrider

theorem FailsAlone.sameTask {id : UnitId} (h : s.FailsAlone id) : t.FailsAlone id := by
  rcases htask with ⟨haxis, hcatalog, hprogram⟩
  cases h with
  | listed hu hlist =>
      rw [← hprogram] at hu
      rw [← hcatalog] at hlist
      exact .listed hu hlist
  | rejected hsubject hjudge =>
      rw [← hcatalog, ← hprogram] at hsubject
      rw [← haxis, ← hprogram] at hjudge
      exact .rejected hsubject hjudge

/-- A chain stays right as long as no final grade is revised. -/
theorem Blames.agrees (hagrees : Agrees s.gradeOf t.gradeOf) {id : UnitId} {chain : List UnitId}
    (h : s.Blames id chain) : t.Blames id chain := by
  refine ⟨h.head, h.links.imp fun _ _ hlink => hlink.sameTask htask, h.nodup, fun a ha => ?_, ?_⟩
  · rw [hagrees a (by rw [h.failing a ha]; rfl), h.failing a ha]
  · rcases h.root with ⟨last, hlast, halone⟩
    exact ⟨last, hlast, halone.sameTask htask⟩

theorem Explained.sameGrades (hgrades : t.gradeOf = s.gradeOf) (h : s.Explained) :
    t.Explained := by
  intro id hnot
  rw [hgrades] at hnot
  rcases h id hnot with ⟨chain, hchain⟩
  refine ⟨chain, hchain.agrees htask ?_⟩
  rw [hgrades]
  exact agrees_refl _

end SameTask

/-- A run that starts over knows of no failures but those of the catalogue. -/
theorem prepared_explained {s : Session} (hs : s.Lawful) (h : s.program.frozen = false) :
    s.prepared.Explained := by
  intro id hnot
  have hcurrent := prepared_current hs
  rcases hcurrent.exists_unit (by rw [hnot]; decide) with ⟨u, hu⟩
  rcases s.prepared_settings with ⟨_, hcatalog, hprogram, _⟩
  have hinit := prepared_gradeOf h (hprogram ▸ hu)
  rw [hnot, initialGrade, ← hcatalog] at hinit
  refine ⟨[id], blames_self hnot (.listed hu ?_)⟩
  rcases hlist : s.prepared.catalog.lookup u.qualified with _ | g
  · rw [hlist] at hinit
    exact absurd hinit (by decide)
  · rw [hlist] at hinit
    rw [hinit]
    rfl

/-- A step explains the failure it finds. -/
theorem Step.explained {s t : Session} (hs : s.Current) (h : s.Step t) (hexplained : s.Explained) :
    t.Explained := by
  intro id hnot
  have htask := h.sameTask
  have hagrees := h.agrees hs
  by_cases hbefore : s.gradeOf id = .not
  · rcases hexplained id hbefore with ⟨chain, hchain⟩
    exact ⟨chain, hchain.agrees htask hagrees⟩
  -- The chain of another failing unit does not go through this one, which had not failed.
  have hprepend : ∀ b, s.ReliesOn id b → s.gradeOf b = .not → ∃ chain, t.Blames id chain := by
    intro b hlink hfails
    rcases hexplained b hfails with ⟨chain, hchain⟩
    have hnew : id ∉ chain := fun hc => hbefore (hchain.failing id hc)
    exact ⟨id :: chain, (hchain.agrees htask hagrees).cons (hlink.sameTask htask) hnot hnew⟩
  rcases h.gradeOf_cases hs id with hsame | hunsure | ⟨u, hsubject, hverdict⟩
  · exact absurd (hsame.symm.trans hnot) hbefore
  · exact absurd (hunsure.symm.trans hnot) (by decide)
  rw [hnot] at hverdict
  rcases hverdict.not_cases with
    ⟨finding, hjudge⟩ | ⟨hbody, b, hb, hfails⟩ | ⟨hvirtual, b, hb, hfails⟩
  · have halone : s.FailsAlone id := .rejected hsubject hjudge
    exact ⟨[id], blames_self hnot (halone.sameTask htask)⟩
  · rcases exists_site_of_exposed hb with ⟨site, hsite, hexposed, htarget⟩
    exact hprepend b (.call hsubject hbody hsite hexposed htarget) hfails
  · exact hprepend b (.override hsubject hvirtual hb) hfails

theorem explained_enduring : Enduring Explained :=
  ⟨fun _ => prepared_explained, fun _ _ => Step.explained,
    fun s _ => Explained.sameGrades (s := s) ⟨rfl, rfl, rfl⟩ rfl⟩

/-- Every failure has a cause. After every run of every history, cut short or not,
    there is a chain from every failing unit through failing ones, none of them
    twice, each step going to an exposed call target or, from a unit that is
    dispatched virtually, to an overrider. It ends with a unit that the catalogue
    lists as failing or that its own local rule rejects. -/
theorem failures_have_causes (axis : Axis) (catalog : Catalog) (scope : List String)
    (ops : List Operation) :
    ∃ s t summary, (start axis catalog scope).performAll ops = .ok s ∧
      s.run = .ok (t, summary) ∧ t.axis = axis ∧ t.catalog = catalog ∧
      t.program = (({} : Program).declareAll (Operation.declarations ops)).freeze ∧
      ∀ id, t.gradeOf id = .not → ∃ chain, t.Blames id chain := by
  rcases history_ending axis catalog scope ops with ⟨s, r, summary, hperform, hrun, _, hr⟩
  rcases hr.task s.roundBound with ⟨haxis, hcatalog, hprogram⟩
  refine ⟨s, _, summary, hperform, hrun, haxis, hcatalog, hprogram, ?_⟩
  rcases explained_enduring.history hperform hrun with ⟨r', heq, hexplained⟩
  -- The chains are about the end of the rounds, which the end of the run only reports on.
  rw [heq, r'.finish_eq]
  exact Explained.sameGrades (s := r'.session) ⟨rfl, rfl, rfl⟩ rfl hexplained

/-- A unit that calls an interface with one unit behind it, which calls a library. -/
def rendering : List Declaration :=
  [.unit ((UnitDecl.method "a.Main" "main").calling "a.Shape" "a.Shape.draw()"),
    .type (TypeDecl.interface "a.Shape"),
    .unit (UnitDecl.method "a.Shape" "draw").asAbstract,
    .type ((TypeDecl.concrete "a.Disc").extending "a.Shape"),
    .unit ((UnitDecl.method "a.Disc" "draw").calling "lib.Screen" "lib.Screen.paint()")]

/-- The catalogue of a library that has side effects. -/
def screenFails : Catalog :=
  Catalog.withNot {} ["lib"]

/-- The library is to blame for the first unit, which never calls it. -/
theorem failures_have_causes_rendering :
    ∃ s t summary, (start .purity screenFails []).performAll
        (rendering.map .declare ++ [.limitRounds 2]) = .ok s ∧
      s.run = .ok (t, summary) ∧ summary.converged = false ∧ t.gradeOf 0 = .not ∧
      ∃ chain, t.Blames 0 chain := by
  rcases failures_have_causes .purity screenFails [] (rendering.map .declare ++ [.limitRounds 2])
    with ⟨s, t, summary, hperform, hrun, _, _, _, hcauses⟩
  have hsame : ((start .purity screenFails []).declareAll rendering).limitRounds 2 = s :=
    Except.ok.inj hperform
  have hopen : (((start .purity screenFails []).declareAll rendering).limitRounds
      2).program.frozen = false :=
    (start_declareAll .purity screenFails [] rendering).frozen
  have hcheck : (fun x => (x.2.converged, x.1.gradeOf 0)) <$>
      (((start .purity screenFails []).declareAll rendering).limitRounds 2).run =
      .ok (false, .not) :=
    map_run_of_within (n := 4) hopen (by decide +kernel)
  rw [hsame, hrun] at hcheck
  rcases Prod.mk.inj (Except.ok.inj hcheck) with ⟨hcut, hnot⟩
  exact ⟨s, t, summary, hperform, hrun, hcut, hnot, hcauses 0 hnot⟩

end Session

end CoreShell
