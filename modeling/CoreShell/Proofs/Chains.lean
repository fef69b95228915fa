import CoreShell.Proofs.History
import Mathlib.Logic.Relation

/-!
# Chains of Reliance

A unit relies on another if it may end up running its code: through a call that
does not go to an object the unit keeps to itself, or by having it as an
overrider. A grade that promises something is a promise about everything the
unit relies on, directly or not. So a failing unit cannot hide behind any chain
of others, and this does not need a run that came to its end: verdicts are
right when they are given and stay right.

## Main definitions

* `Grade.Backed`: What one grade promises, another one does.
* `Program.Uses`: One unit calls another or has it as an overrider.
* `Session.ReliesOn`: One unit may end up running the code of another.

## Theorems

* `UnitVerdict.backed_of_call`, `UnitVerdict.backed_of_override`: A verdict promises
  nothing that a unit behind it does not.
* `ReliesOn.backed`: A single link passes promises on.
* `reliance_keeps_promises`: Chains do, after every run of every history.
-/

namespace CoreShell

open Relation (ReflTransGen)

/-- Whatever the first grade promises, the second one does. -/
structure Grade.Backed (g g' : Grade) : Prop where
  strict : g = .strict → g' = .strict
  free : g = .strict ∨ g = .domain → g' = .strict ∨ g' = .domain

theorem Grade.Backed.trans {a b c : Grade} (h : a.Backed b) (h' : b.Backed c) : a.Backed c :=
  ⟨fun hc => h'.strict (h.strict hc), fun hc => h'.free (h.free hc)⟩

/-- A failing grade promises nothing. -/
theorem Grade.backed_of_not (g : Grade) : Grade.not.Backed g :=
  ⟨fun hc => absurd hc (by decide), fun hc => absurd hc (by decide)⟩

/-- The call rule promises nothing that an exposed target does not. -/
theorem CallVerdict.backed {p : Program} {u : CodeUnit} {floor g : Grade} {grade : UnitId → Grade}
    (hfloor : floor = .strict ∨ floor = .domain) (h : CallVerdict p u floor grade g) {t : UnitId}
    (ht : t ∈ p.exposedTargets u) : g.Backed (grade t) := by
  have hfinal := (Grade.isFinal_iff _).1 (h.decided t (p.exposedTargets_subset u ht))
  cases h with
  | absorbed _ _ _ => exact Grade.backed_of_not _
  | lowered _ hsafe _ _ =>
      -- Domain promises less than strict, so a target may be either.
      rw [weakenTo_domain hfloor]
      have hfree := hfinal.resolve_left (hsafe t ht)
      exact ⟨fun hc => absurd hc (by decide), fun _ => hfree.symm⟩
  | kept _ hsafe hhigh =>
      have hstrict := (hfinal.resolve_left (hsafe t ht)).resolve_left
        (hhigh t (p.exposedTargets_subset u ht))
      exact ⟨fun _ => hstrict, fun _ => Or.inl hstrict⟩

/-- The dispatch rule promises nothing that an overrider does not. -/
theorem DispatchVerdict.backed {p : Program} {u : CodeUnit} {g : Grade} {grade : UnitId → Grade}
    (h : DispatchVerdict p u grade g) {o : UnitId} (ho : o ∈ p.overridersOf u) :
    g.Backed (grade o) := by
  cases h with
  | strict _ hall => exact ⟨fun _ => hall o ho, fun _ => Or.inl (hall o ho)⟩
  | domain hall _ _ => exact ⟨fun hc => absurd hc (by decide), fun _ => hall o ho⟩
  | failed _ _ => exact Grade.backed_of_not _

theorem UnitVerdict.backed_of_call {axis : Axis} {p : Program} {u : CodeUnit} {g : Grade}
    {grade : UnitId → Grade} (h : UnitVerdict axis p u grade g)
    (hbody : p.dispatchesVirtually u = false) {t : UnitId} (ht : t ∈ p.exposedTargets u) :
    g.Backed (grade t) := by
  cases h with
  | rejected _ => exact Grade.backed_of_not _
  | called hjudge hcalls => exact hcalls.backed (judge_provisional hjudge) ht
  | dispatched hjudge _ => exact absurd (judge_dispatch hjudge) (by simp [hbody])

theorem UnitVerdict.backed_of_override {axis : Axis} {p : Program} {u : CodeUnit} {g : Grade}
    {grade : UnitId → Grade} (h : UnitVerdict axis p u grade g)
    (hvirtual : p.dispatchesVirtually u = true) {o : UnitId} (ho : o ∈ p.overridersOf u) :
    g.Backed (grade o) := by
  cases h with
  | rejected _ => exact Grade.backed_of_not _
  | called hjudge _ => exact absurd (judge_provisional_body hjudge) (by simp [hvirtual])
  | dispatched _ hdispatch => exact hdispatch.backed ho

/-- The first unit calls the second one or has it as an overrider. -/
def Program.Uses (p : Program) (a b : UnitId) : Prop :=
  ∃ u, p.units[a]? = some u ∧ (b ∈ u.targets ∨ b ∈ p.overridersOf u)

namespace Session

/-- One unit, up to the rules, may end up running the code of another. -/
inductive ReliesOn (s : Session) (a : UnitId) : UnitId → Prop
  /-- Through a call site whose declared owner it does not construct. -/
  | call {u : CodeUnit} {site : CallSite} {b : UnitId} (subject : Subject s.catalog s.program a u)
      (body : s.program.dispatchesVirtually u = false) (made : site ∈ u.calls)
      (exposed : ∀ c ∈ u.constructs, ∀ v, s.program.units[c]? = some v → v.owner ≠ site.owner)
      (target : b ∈ site.targets) : ReliesOn s a b
  /-- By having it as an overrider. -/
  | override {u : CodeUnit} {b : UnitId} (subject : Subject s.catalog s.program a u)
      (virtual : s.program.dispatchesVirtually u = true)
      (overrider : b ∈ s.program.overridersOf u) : ReliesOn s a b

theorem mem_exposedTargets {p : Program} {u : CodeUnit} {site : CallSite} {b : UnitId}
    (hsite : site ∈ u.calls)
    (hexposed : ∀ c ∈ u.constructs, ∀ v, p.units[c]? = some v → v.owner ≠ site.owner)
    (htarget : b ∈ site.targets) : b ∈ p.exposedTargets u := by
  -- The rule goes by the owners of what is constructed, the hypothesis by the units.
  refine List.mem_flatMap.2 ⟨site, List.mem_filter.2 ⟨hsite, ?_⟩, htarget⟩
  rw [decide_eq_true_eq, Program.constructedTypes, List.mem_filterMap]
  rintro ⟨c, hc, howner⟩
  rcases Option.map_eq_some_iff.1 howner with ⟨v, hv, heq⟩
  exact hexposed c hc v hv heq

theorem exists_site_of_exposed {p : Program} {u : CodeUnit} {b : UnitId}
    (h : b ∈ p.exposedTargets u) :
    ∃ site ∈ u.calls,
      (∀ c ∈ u.constructs, ∀ v, p.units[c]? = some v → v.owner ≠ site.owner) ∧
      b ∈ site.targets := by
  rcases List.mem_flatMap.1 h with ⟨site, hsite, htarget⟩
  rcases List.mem_filter.1 hsite with ⟨hmade, hforeign⟩
  rw [decide_eq_true_eq, Program.constructedTypes, List.mem_filterMap] at hforeign
  refine ⟨site, hmade, fun c hc v hv heq => hforeign ⟨c, hc, ?_⟩, htarget⟩
  rw [hv, Option.map_some, heq]

/-- A single link passes promises on. -/
theorem ReliesOn.backed {s : Session} (hs : s.Current) {a b : UnitId} (h : s.ReliesOn a b) :
    (s.gradeOf a).Backed (s.gradeOf b) := by
  by_cases hfinal : (s.gradeOf a).isFinal = true
  · cases h with
    | call hsubject hbody hsite hexposed htarget =>
        exact (hs.verdict_of_final hsubject hfinal).backed_of_call hbody
          (mem_exposedTargets hsite hexposed htarget)
    | override hsubject hvirtual hoverrider =>
        exact (hs.verdict_of_final hsubject hfinal).backed_of_override hvirtual hoverrider
  · -- A temporary grade promises nothing.
    rw [Grade.isFinal_iff] at hfinal
    push Not at hfinal
    exact ⟨fun hc => absurd hc hfinal.2.2, fun hc => absurd hc (by simp [hfinal.2])⟩

theorem chain_backed {s : Session} (hs : s.Current) {a b : UnitId}
    (h : ReflTransGen s.ReliesOn a b) : (s.gradeOf a).Backed (s.gradeOf b) := by
  induction h with
  | refl => exact ⟨fun hc => hc, fun hc => hc⟩
  | tail _ hlink ih => exact ih.trans (hlink.backed hs)

/-- After every run of every history, whether or not the run came to its end:
    a unit that relies on a failing one through any chain of others is neither
    strict nor domain, and a strict unit relies on strict ones only. -/
theorem reliance_keeps_promises (axis : Axis) (catalog : Catalog) (scope : List String)
    (ops : List Operation) :
    ∃ s t summary, (start axis catalog scope).performAll ops = .ok s ∧
      s.run = .ok (t, summary) ∧
      ∀ a b, ReflTransGen t.ReliesOn a b →
        (t.gradeOf b = .not → t.gradeOf a ≠ .strict ∧ t.gradeOf a ≠ .domain) ∧
        (t.gradeOf a = .strict → t.gradeOf b = .strict) := by
  rcases performAll_induction (P := fun _ => True) (start_lawful axis catalog scope) trivial
    (fun _ _ _ _ _ _ => trivial) ops with ⟨s, hperform, hs, _⟩
  rcases run_spec hs with ⟨r, _, _, _, _, hrun⟩
  refine ⟨s, _, _, hperform, hrun, fun a b hchain => ?_⟩
  have hbacked := chain_backed (run_current hs hrun) hchain
  refine ⟨fun hnot => ⟨fun hstrict => ?_, fun hdomain => ?_⟩, hbacked.strict⟩
  · exact absurd (hbacked.free (Or.inl hstrict)) (by simp [hnot])
  · exact absurd (hbacked.free (Or.inr hdomain)) (by simp [hnot])

end Session

end CoreShell
