import CoreShell.Proofs.Chains
import CoreShell.Proofs.Endings

/-!
# Two Catalogues

What a catalogue knows decides what a run finds out, and this is about one
program that is run with two of them.

A catalogue that knows more about undecided units overturns nothing. No verdict
ever rested on a unit being undecided, so every derivation with the first
catalogue is one with the second.

A catalogue that thinks better of the units it lists makes no strict or domain
unit fail. But it may make one worse: a call to an object that its caller
constructed is spared if it fails, and not if it keeps to its domain. So a target
that no longer fails may lower the floor of such a caller from strict to domain,
and of those who use it. `spared_call_lowers_caller` is such a program, and
`improvement_keeps_grades` says that there is no other way to get worse.

## Main definitions

* `Catalog.RaisedBy`: Another catalogue thinks better of the units it lists.
* `Grade.Slipped`: From strict to domain.
* `Session.Spared`: A unit calls what it constructed, which no longer fails.
* `Session.Slips`: A unit gets worse because of such a call.

## Theorems

* `Derives.of_more_knowledge`: Derivations do not rest on what is undecided.
* `knowledge_keeps_verdicts`: More knowledge about undecided units keeps all final
  grades.
* `UnitVerdict.compare`: How the rules follow better grades of other units.
* `improvement_keeps_grades`: Better grades in the catalogue make a unit worse in
  one way only.
-/

namespace CoreShell

section Knowledge

variable {axis : Axis} {catalog catalog' : Catalog} {p : Program}

/-- Derivations do not rest on what is undecided. If two catalogues agree on
    every unit that the first one decides, the second decides it alike. -/
theorem Derives.of_more_knowledge
    (h : ∀ id u g, p.units[id]? = some u → Derives axis catalog p id g →
      catalog'.lookup u.qualified = catalog.lookup u.qualified)
    {id : UnitId} {g : Grade} (hd : Derives axis catalog p id g) :
    Derives axis catalog' p id g := by
  -- The agreement is about decided units, so both derivations go along.
  have hboth : Derives axis catalog p id g ∧ Derives axis catalog' p id g := by
    refine hd.induction
      (P := fun id g => Derives axis catalog p id g ∧ Derives axis catalog' p id g) ?_ ?_
    · intro id u g hu hlist
      have hfirst : Derives axis catalog p id g := .listed hu hlist
      have hsecond : catalog'.lookup u.qualified = some g := by rw [h id u g hu hfirst, hlist]
      exact ⟨hfirst, .listed hu hsecond⟩
    · intro id u g grade hsubject hknown hverdict
      have hfirst : Derives axis catalog p id g :=
        .of_verdict hsubject (fun j hj => (hknown j hj).1) hverdict
      have hunlisted : catalog'.lookup u.qualified = none := by
        rw [h id u g hsubject.unit hfirst, hsubject.unlisted]
      exact ⟨hfirst, .of_verdict ⟨hsubject.unit, hsubject.submitted, hunlisted⟩
        (fun j hj => (hknown j hj).2) hverdict⟩
  exact hboth.2

end Knowledge

namespace Session

/-- Run a session to its end, after any history, and let another catalogue
    differ from its own on undecided units only. A run of the same declarations
    with that catalogue keeps every final grade, so what it leaves undecided was
    undecided before. -/
theorem knowledge_keeps_verdicts (axis : Axis) (catalog catalog' : Catalog)
    (scope scope' : List String) (ops : List Operation) :
    ∃ s t summary t' summary', (start axis catalog scope).performAll ops = .ok s ∧
      s.run = .ok (t, summary) ∧
      ((start axis catalog' scope').declareAll (Operation.declarations ops)).run =
        .ok (t', summary') ∧
      t'.program = t.program ∧
      (summary.converged = true →
        (∀ id u, t.program.units[id]? = some u →
          catalog.lookup u.qualified ≠ catalog'.lookup u.qualified →
          (t.gradeOf id).isTemporary = true) →
        (∀ id, (t.gradeOf id).isFinal = true → t'.gradeOf id = t.gradeOf id) ∧
        ∀ id, (t'.gradeOf id).isTemporary = true → (t.gradeOf id).isTemporary = true) := by
  have hs := start_declareAll axis catalog scope (Operation.declarations ops)
  have hs' := start_declareAll axis catalog' scope' (Operation.declarations ops)
  rcases history_ending axis catalog scope ops with ⟨s, r, summary, hperform, hrun, hsummary, hr⟩
  rcases run_outcome hs'.lawful hs'.frozen hs'.maxRounds_eq with ⟨r', summary', hrun', _, _, hr'⟩
  have hprogram : r'.session.program = r.session.program := by
    rw [hr'.program_eq, hr.program_eq, hs.program_eq, hs'.program_eq]
  refine ⟨s, _, summary, _, summary', hperform, hrun, hrun', ?_, fun hconverged => ?_⟩
  · rw [r.finish_program, r'.finish_program, hprogram]
  rw [hsummary] at hconverged
  have hderives := (hr.outcome hconverged).derives_iff
  have hderives' := hr'.derives_iff
  rw [hs.axis_eq, hs.catalog_eq, ← hr.program_eq] at hderives
  rw [hs'.axis_eq, hs'.catalog_eq, ← hr'.program_eq, hprogram] at hderives'
  simp only [Progress.finish_program, Progress.finish_gradeOf]
  intro hdiffer
  have hkeeps : ∀ id, (r.session.gradeOf id).isFinal = true →
      r'.session.gradeOf id = r.session.gradeOf id := by
    intro id hfinal
    have hderived := (hderives id _).2 ⟨rfl, hfinal⟩
    refine ((hderives' id _).1 (hderived.of_more_knowledge fun j u g hu hj => ?_)).1
    -- A unit that is decided is none of those the catalogues differ on.
    by_contra hne
    have htemporary := hdiffer j u hu (Ne.symm hne)
    rcases (hderives j g).1 hj with ⟨rfl, hdecided⟩
    rw [Grade.isFinal_eq_not, htemporary] at hdecided
    exact absurd hdecided (by decide)
  refine ⟨hkeeps, fun id htemporary => ?_⟩
  by_contra hc
  have hfinal := Grade.isFinal_of_not_temporary hc
  rw [hkeeps id hfinal] at htemporary
  exact hc htemporary

/-- A unit that calls a library, and one that does not. -/
def logging : List Operation :=
  [.declare (.unit ((UnitDecl.method "a.Main" "main").calling "lib.Log" "lib.Log.write()")),
    .declare (.unit (UnitDecl.method "a.Main" "size"))]

/-- The library fails. -/
def libFails : Catalog :=
  Catalog.withNot {} ["lib"]

/-- At first nothing is known about the library. Its caller was undecided, and
    the other unit stays what it was. -/
theorem knowledge_keeps_verdicts_logging :
    ∃ s t summary t' summary', (start .purity {} []).performAll logging = .ok s ∧
      s.run = .ok (t, summary) ∧ summary.converged = true ∧
      ((start .purity libFails []).declareAll (Operation.declarations logging)).run =
        .ok (t', summary') ∧
      (∀ id u, t.program.units[id]? = some u →
        Catalog.lookup {} u.qualified ≠ libFails.lookup u.qualified →
        (t.gradeOf id).isTemporary = true) ∧
      t.gradeOf 0 = .unsure ∧ t'.gradeOf 0 = .not ∧ t.gradeOf 2 = .strict ∧
      t'.gradeOf 2 = .strict := by
  rcases knowledge_keeps_verdicts .purity {} libFails [] [] logging with
    ⟨s, t, summary, t', summary', hperform, hrun, hrun', _, hkeeps⟩
  have hbefore : ((start .purity {} []).performAll logging >>= fun s => s.run >>= fun x =>
      Except.ok (x.2.converged, x.1.gradeOf 0, x.1.gradeOf 2,
        decide (∀ id < x.1.program.units.size, ∀ u ∈ x.1.program.units[id]?,
          Catalog.lookup {} u.qualified ≠ libFails.lookup u.qualified →
          (x.1.gradeOf id).isTemporary = true))) =
      .ok (true, .unsure, .strict, true) := by decide +kernel
  have hafter : (fun x => x.1.gradeOf 0) <$>
      ((start .purity libFails []).declareAll (Operation.declarations logging)).run =
      .ok .not := by decide +kernel
  rw [hperform] at hbefore
  change s.run >>= _ = _ at hbefore
  rw [hrun] at hbefore
  rw [hrun'] at hafter
  have hfound := Except.ok.inj hbefore
  simp only [Prod.mk.injEq, decide_eq_true_eq] at hfound
  rcases hfound with ⟨hconverged, hunsure, hstrict, hdiffer⟩
  have hundecided : ∀ id u, t.program.units[id]? = some u →
      Catalog.lookup {} u.qualified ≠ libFails.lookup u.qualified →
      (t.gradeOf id).isTemporary = true :=
    fun id u hu => hdiffer id (Array.getElem?_eq_some_iff.1 hu).1 u hu
  have hkept := (hkeeps hconverged hundecided).1 2 (by rw [hstrict]; rfl)
  exact ⟨s, t, summary, t', summary', hperform, hrun, hconverged, hrun', hundecided, hunsure,
    Except.ok.inj hafter, hstrict, hkept.trans hstrict⟩

end Session

/-- On the units of a program, the second catalogue lists the same names as the
    first, and none of them with a lower grade. -/
def Catalog.RaisedBy (c c' : Catalog) (p : Program) : Prop :=
  ∀ u ∈ p.units.toList, (c.lookup u.qualified).isSome = (c'.lookup u.qualified).isSome ∧
    ((c.lookup u.qualified).getD .unchecked).rank ≤ ((c'.lookup u.qualified).getD .unchecked).rank

instance (c c' : Catalog) (p : Program) : Decidable (c.RaisedBy c' p) :=
  inferInstanceAs (Decidable (∀ u ∈ p.units.toList, _ ∧ _))

section Raised

variable {c c' : Catalog} {p : Program} {id : UnitId} {u : CodeUnit}

theorem Catalog.RaisedBy.unlisted (h : c.RaisedBy c' p) (hu : p.units[id]? = some u)
    (hnone : c'.lookup u.qualified = none) : c.lookup u.qualified = none := by
  have hsame := (h u (Array.mem_toList_iff.2 (Array.mem_of_getElem? hu))).1
  rw [hnone] at hsame
  simpa using hsame

theorem Catalog.RaisedBy.listed (h : c.RaisedBy c' p) (hu : p.units[id]? = some u) {g' : Grade}
    (hlist : c'.lookup u.qualified = some g') :
    ∃ g, c.lookup u.qualified = some g ∧ g.rank ≤ g'.rank := by
  rcases h u (Array.mem_toList_iff.2 (Array.mem_of_getElem? hu)) with ⟨hsame, hle⟩
  rw [hlist] at hsame hle
  rcases Option.isSome_iff_exists.1 hsame with ⟨g, hg⟩
  rw [hg] at hle
  exact ⟨g, hg, hle⟩

end Raised

namespace Grade

/-- From strict to domain, which is the one way down. -/
def Slipped (g g' : Grade) : Prop :=
  g = .strict ∧ g' = .domain

theorem Slipped.not_rank_le {g g' : Grade} (h : g.Slipped g') : ¬ g.rank ≤ g'.rank := by
  rw [h.1, h.2]
  decide

/-- What fails in the end has failed before, if it was decided. -/
theorem eq_not_of_not {g : Grade} (hfinal : g.isFinal = true)
    (h : g.rank ≤ Grade.not.rank ∨ g.Slipped .not) : g = .not := by
  rcases h with hle | ⟨_, hdomain⟩
  · rcases (isFinal_iff g).1 hfinal with rfl | rfl | rfl
    · rfl
    · exact absurd hle (by decide)
    · exact absurd hle (by decide)
  · exact absurd hdomain (by decide)

end Grade

section Compare

variable {p : Program} {u : CodeUnit} {grade grade' : UnitId → Grade} {g g' : Grade}
  (h : ∀ j, (grade j).isFinal = true → (grade' j).isFinal = true →
    (grade j).rank ≤ (grade' j).rank ∨ (grade j).Slipped (grade' j))
include h

/-- How the call rule follows better grades of the targets. -/
theorem CallVerdict.compare {floor : Grade} (hfloor : floor = .strict ∨ floor = .domain)
    (hv : CallVerdict p u floor grade g) (hv' : CallVerdict p u floor grade' g') :
    g.rank ≤ g'.rank ∨ g.Slipped g' ∧ ∃ t ∈ u.targets, (grade t).Slipped (grade' t) ∨
      t ∉ p.exposedTargets u ∧ grade t = .not ∧ grade' t = .domain := by
  have hdecided := hv.decided
  have hdecided' := hv'.decided
  cases hv' with
  | @absorbed t _ hexposed hfails =>
      have ht := p.exposedTargets_subset u hexposed
      have hbetter := h t (hdecided t ht) (hdecided' t ht)
      rw [hfails] at hbetter
      -- The target failed before, and so did the unit.
      have hfailed := Grade.eq_not_of_not (hdecided t ht) hbetter
      cases hv with
      | absorbed _ _ _ => exact Or.inl (Nat.le_refl _)
      | lowered _ hsafe _ _ => exact absurd hfailed (hsafe t hexposed)
      | kept _ hsafe _ => exact absurd hfailed (hsafe t hexposed)
  | @lowered t _ _ ht hdomain =>
      rw [weakenTo_domain hfloor]
      cases hv with
      | absorbed _ _ _ => exact Or.inl (by decide)
      | lowered _ _ _ _ =>
          rw [weakenTo_domain hfloor]
          exact Or.inl (Nat.le_refl _)
      | kept _ hsafe hhigh =>
          rcases hfloor with rfl | rfl
          · -- The floor was not lowered before, so the target was strict or spared.
            refine Or.inr ⟨⟨rfl, rfl⟩, t, ht, ?_⟩
            rcases (Grade.isFinal_iff _).1 (hdecided t ht) with hfailed | hbefore | hstrict
            · exact Or.inr ⟨fun hexposed => hsafe t hexposed hfailed, hfailed, hdomain⟩
            · exact absurd hbefore (hhigh t ht)
            · exact Or.inl ⟨hstrict, hdomain⟩
          · exact Or.inl (Nat.le_refl _)
  | kept _ _ _ =>
      left
      cases hv with
      | absorbed _ _ _ => rcases hfloor with rfl | rfl <;> decide
      | lowered _ _ _ _ => rcases hfloor with rfl | rfl <;> decide
      | kept _ _ _ => exact Nat.le_refl _

/-- How the dispatch rule follows better grades of the overriders. -/
theorem DispatchVerdict.compare (hv : DispatchVerdict p u grade g)
    (hv' : DispatchVerdict p u grade' g') :
    g.rank ≤ g'.rank ∨
      g.Slipped g' ∧ ∃ o ∈ p.overridersOf u, (grade o).Slipped (grade' o) := by
  cases hv' with
  | strict _ _ =>
      left
      cases hv <;> decide
  | @domain o _ ho hdomain =>
      cases hv with
      | strict _ hall => exact Or.inr ⟨⟨rfl, rfl⟩, o, ho, hall o ho, hdomain⟩
      | domain _ _ _ => exact Or.inl (Nat.le_refl _)
      | failed _ _ => exact Or.inl (by decide)
  | @failed o ho hfails =>
      -- Whatever the rule said before, it did not say so of an undecided overrider.
      have hbefore : (grade o).isFinal = true → grade o = .not := by
        intro hfinal
        have hbetter := h o hfinal (by rw [hfails]; rfl)
        rw [hfails] at hbetter
        exact Grade.eq_not_of_not hfinal hbetter
      have hfree : ¬ (grade o = .strict ∨ grade o = .domain) := by
        rintro (hstrict | hdomain)
        · exact absurd (hbefore (by rw [hstrict]; rfl)) (by rw [hstrict]; decide)
        · exact absurd (hbefore (by rw [hdomain]; rfl)) (by rw [hdomain]; decide)
      cases hv with
      | strict _ hall => exact absurd (Or.inl (hall o ho)) hfree
      | domain hall _ _ => exact absurd (hall o ho) hfree
      | failed _ _ => exact Or.inl (Nat.le_refl _)

/-- The rules follow better grades of other units. If a unit slips, it is because
    of one that does, or of a spared call. -/
theorem UnitVerdict.compare {axis : Axis} (hv : UnitVerdict axis p u grade g)
    (hv' : UnitVerdict axis p u grade' g') :
    g.rank ≤ g'.rank ∨ g.Slipped g' ∧
      ((∃ j, (j ∈ u.targets ∨ j ∈ p.overridersOf u) ∧ (grade j).Slipped (grade' j)) ∨
        ∃ t ∈ u.targets, t ∉ p.exposedTargets u ∧ grade t = .not ∧ grade' t = .domain) := by
  -- The local rule does not look at grades, so it says the same both times.
  cases hv with
  | rejected hjudge =>
      cases hv' with
      | rejected _ => exact Or.inl (Nat.le_refl _)
      | called hjudge' _ => exact absurd (hjudge.symm.trans hjudge') (by simp)
      | dispatched hjudge' _ => exact absurd (hjudge.symm.trans hjudge') (by simp)
  | called hjudge hcalls =>
      cases hv' with
      | rejected hjudge' => exact absurd (hjudge.symm.trans hjudge') (by simp)
      | called hjudge' hcalls' =>
          cases hjudge.symm.trans hjudge'
          rcases hcalls.compare h (judge_provisional hjudge) hcalls' with
            hle | ⟨hslipped, t, ht, htarget | hspared⟩
          · exact Or.inl hle
          · exact Or.inr ⟨hslipped, Or.inl ⟨t, Or.inl ht, htarget⟩⟩
          · exact Or.inr ⟨hslipped, Or.inr ⟨t, ht, hspared⟩⟩
      | dispatched hjudge' _ => exact absurd (hjudge.symm.trans hjudge') (by simp)
  | dispatched hjudge hdispatch =>
      cases hv' with
      | rejected hjudge' => exact absurd (hjudge.symm.trans hjudge') (by simp)
      | called hjudge' _ => exact absurd (hjudge.symm.trans hjudge') (by simp)
      | dispatched _ hdispatch' =>
          rcases hdispatch.compare h hdispatch' with hle | ⟨hslipped, o, ho, hover⟩
          · exact Or.inl hle
          · exact Or.inr ⟨hslipped, Or.inl ⟨o, Or.inr ho, hover⟩⟩

end Compare

namespace Session

/-- The unit has a call site whose declared owner it constructs, and a target
    there fails in the first session and keeps to its domain in the second. -/
def Spared (r r' : Session) (id : UnitId) : Prop :=
  ∃ u site t, r.program.units[id]? = some u ∧ site ∈ u.calls ∧
    (∃ c ∈ u.constructs, ∃ v, r.program.units[c]? = some v ∧ v.owner = site.owner) ∧
    t ∈ site.targets ∧ r.gradeOf t = .not ∧ r'.gradeOf t = .domain

/-- The unit is strict in the first session and domain in the second, because of
    a spared call or of another unit that slips. -/
inductive Slips (r r' : Session) : UnitId → Prop
  | spared {id : UnitId} (slipped : (r.gradeOf id).Slipped (r'.gradeOf id))
      (spared : r.Spared r' id) : Slips r r' id
  | via {id j : UnitId} (slipped : (r.gradeOf id).Slipped (r'.gradeOf id))
      (uses : r.program.Uses id j) (slips : Slips r r' j) : Slips r r' id

theorem Slips.slipped {r r' : Session} {id : UnitId} (h : r.Slips r' id) :
    (r.gradeOf id).Slipped (r'.gradeOf id) := by
  cases h <;> assumption

/-- A target that is not exposed is called on an object the unit constructs. -/
theorem exists_site_of_not_exposed {p : Program} {u : CodeUnit} {t : UnitId}
    (ht : t ∈ u.targets) (h : t ∉ p.exposedTargets u) :
    ∃ site ∈ u.calls, (∃ c ∈ u.constructs, ∃ v, p.units[c]? = some v ∧ v.owner = site.owner) ∧
      t ∈ site.targets := by
  rcases List.mem_flatMap.1 ht with ⟨site, hsite, htarget⟩
  refine ⟨site, hsite, ?_, htarget⟩
  by_contra hc
  push Not at hc
  exact h (mem_exposedTargets hsite hc htarget)

section Improvement

variable {r r' : Session} (hr : r.Current) (hr' : r'.Current) (hstable : r'.Stable)
  (haxis : r'.axis = r.axis) (hprogram : r'.program = r.program)
  (h : r.catalog.RaisedBy r'.catalog r.program)
include hr haxis hprogram h

/-- One verdict of the second session, on grades that it has. -/
theorem rank_le_or_slips_of_verdict {id : UnitId} {u : CodeUnit} {g : Grade}
    {grade : UnitId → Grade} (hsubject : Subject r'.catalog r'.program id u)
    (hknown : ∀ j, (grade j).isFinal = true → r'.gradeOf j = grade j ∧
      ((r.gradeOf j).isFinal = true → (r.gradeOf j).rank ≤ (grade j).rank ∨ r.Slips r' j))
    (hverdict : UnitVerdict r'.axis r'.program u grade g) (hg : r'.gradeOf id = g)
    (hfinal : (r.gradeOf id).isFinal = true) :
    (r.gradeOf id).rank ≤ g.rank ∨ r.Slips r' id := by
  rw [haxis, hprogram] at hverdict
  have hu : r.program.units[id]? = some u := hprogram ▸ hsubject.unit
  have hunlisted := h.unlisted hu hsubject.unlisted
  have hbefore := hr.verdict_of_final ⟨hu, hsubject.submitted, hunlisted⟩ hfinal
  have hbetter : ∀ j, (r.gradeOf j).isFinal = true → (grade j).isFinal = true →
      (r.gradeOf j).rank ≤ (grade j).rank ∨ (r.gradeOf j).Slipped (grade j) := by
    intro j hj hj'
    rcases hknown j hj' with ⟨hsame, hcompare⟩
    rw [← hsame] at hcompare ⊢
    exact (hcompare hj).imp_right Slips.slipped
  rcases hbefore.compare hbetter hverdict with hle | ⟨hslipped, hcause⟩
  · exact Or.inl hle
  rw [← hg] at hslipped
  right
  rcases hcause with ⟨j, huses, hj⟩ | ⟨t, ht, hexposed, hfailed, hdomain⟩
  · -- The other unit is not as good as before, so it slips itself.
    have hcompare := (hknown j (by rw [hj.2]; rfl)).2 (by rw [hj.1]; rfl)
    exact .via hslipped ⟨u, hu, huses⟩ (hcompare.resolve_left hj.not_rank_le)
  · rcases exists_site_of_not_exposed ht hexposed with ⟨site, hsite, howner, htarget⟩
    have hsame := (hknown t (by rw [hdomain]; rfl)).1
    exact .spared hslipped ⟨u, site, t, hu, hsite, howner, htarget, hfailed, hsame.trans hdomain⟩

include hr' hstable

/-- What the second session derives is no worse, or slips. -/
theorem rank_le_or_slips {id : UnitId} {g : Grade}
    (hd : Derives r'.axis r'.catalog r'.program id g) (hfinal : (r.gradeOf id).isFinal = true) :
    (r.gradeOf id).rank ≤ g.rank ∨ r.Slips r' id := by
  have hboth : r'.gradeOf id = g ∧
      ((r.gradeOf id).isFinal = true → (r.gradeOf id).rank ≤ g.rank ∨ r.Slips r' id) := by
    -- A unit may be decided in the second session only, so it says nothing then.
    refine hd.induction (P := fun id g => r'.gradeOf id = g ∧
      ((r.gradeOf id).isFinal = true → (r.gradeOf id).rank ≤ g.rank ∨ r.Slips r' id)) ?_ ?_
    · intro id u g hu hlist
      refine ⟨hr'.gradeOf_listed hu hlist, fun _ => ?_⟩
      rw [hprogram] at hu
      rcases h.listed hu hlist with ⟨g₀, hlist₀, hle⟩
      rw [hr.gradeOf_listed hu hlist₀]
      exact Or.inl hle
    · intro id u g grade hsubject hknown hverdict
      have hg := hstable.gradeOf_eq hr' hsubject (hverdict.agrees fun j hj => (hknown j hj).1)
      exact ⟨hg, rank_le_or_slips_of_verdict hr haxis hprogram h hsubject hknown hverdict hg⟩
  exact hboth.2 hfinal

end Improvement

/-- Run the same declarations with two catalogues, where the second thinks better
    of the units they list. Every unit that both runs decide is at least as good
    with the second catalogue, or goes from strict to domain because it calls an
    object of its own with a target that no longer fails, or uses a unit that does
    so. -/
theorem improvement_keeps_grades (axis : Axis) (catalog catalog' : Catalog)
    (scope scope' : List String) (ds : List Declaration) :
    ∃ t summary t' summary', ((start axis catalog scope).declareAll ds).run = .ok (t, summary) ∧
      ((start axis catalog' scope').declareAll ds).run = .ok (t', summary') ∧
      t'.program = t.program ∧
      (catalog.RaisedBy catalog' t.program →
        ∀ id, (t.gradeOf id).isFinal = true → (t'.gradeOf id).isFinal = true →
          (t.gradeOf id).rank ≤ (t'.gradeOf id).rank ∨ t.Slips t' id) := by
  have hs := start_declareAll axis catalog scope ds
  have hs' := start_declareAll axis catalog' scope' ds
  rcases run_outcome hs.lawful hs.frozen hs.maxRounds_eq with ⟨r, summary, hrun, _, _, hr⟩
  rcases run_outcome hs'.lawful hs'.frozen hs'.maxRounds_eq with ⟨r', summary', hrun', _, _, hr'⟩
  rcases run_settings hs.lawful hrun with ⟨haxis, hcatalog, _, hprogram⟩
  rcases run_settings hs'.lawful hrun' with ⟨haxis', hcatalog', _, hprogram'⟩
  rw [hs.program_eq] at hprogram
  have hsame := hprogram'.trans (hs'.program_eq ▸ hprogram.symm)
  refine ⟨_, summary, _, summary', hrun, hrun', hsame, fun hraised id hfinal hfinal' => ?_⟩
  refine rank_le_or_slips (run_current hs.lawful hrun) (run_current hs'.lawful hrun')
    (Progress.finish_stable hr'.stable _) ?_ hsame ?_ ?_ hfinal
  · rw [haxis, haxis', hs.axis_eq, hs'.axis_eq]
  · rw [hcatalog, hcatalog', hs.catalog_eq, hs'.catalog_eq]
    exact hraised
  · rw [haxis', hcatalog', hprogram']
    exact (hr'.derives_iff id _).2 ⟨(r'.finish_gradeOf _ id).symm, hfinal'⟩

/-- A unit that fills a box of its own, and one that fills the box of another. -/
def boxes : List Declaration :=
  [.unit (((UnitDecl.method "a.Maker" "make").constructing "lib.Box.<init>()").calling "lib.Box"
      "lib.Box.put()"),
    .unit ((UnitDecl.method "a.Filler" "fill").calling "lib.Box" "lib.Box.put()")]

/-- Filling a box fails. -/
def boxFails : Catalog :=
  Catalog.withNot {} ["lib.Box.put"]

/-- Filling a box changes the box only. -/
def boxKeeps : Catalog :=
  Catalog.withDomain {} ["lib.Box.put"]

/-- The box that fails does not count for its maker, and the one that does not
    fail counts. -/
theorem spared_call_lowers_caller :
    ∃ t summary t' summary', ((start .purity boxFails []).declareAll boxes).run = .ok (t, summary) ∧
      ((start .purity boxKeeps []).declareAll boxes).run = .ok (t', summary') ∧
      boxFails.RaisedBy boxKeeps t.program ∧ t.query "a.Maker.make()" = .ok .strict ∧
      t'.query "a.Maker.make()" = .ok .domain := by
  have hbefore : (fun x => (decide (boxFails.RaisedBy boxKeeps x.1.program),
      x.1.query "a.Maker.make()")) <$> ((start .purity boxFails []).declareAll boxes).run =
      .ok (true, .ok .strict) := by decide +kernel
  have hafter : (fun x => x.1.query "a.Maker.make()") <$>
      ((start .purity boxKeeps []).declareAll boxes).run = .ok (.ok .domain) := by decide +kernel
  rcases exists_of_map_eq_ok hbefore with ⟨⟨t, summary⟩, hrun, heq⟩
  rcases exists_of_map_eq_ok hafter with ⟨⟨t', summary'⟩, hrun', heq'⟩
  rcases Prod.mk.inj heq with ⟨hraised, hstrict⟩
  exact ⟨t, summary, t', summary', hrun, hrun', of_decide_eq_true hraised, hstrict, heq'⟩

/-- The maker slips, and the other unit no longer fails. -/
theorem improvement_keeps_grades_boxes :
    ∃ t summary t' summary', ((start .purity boxFails []).declareAll boxes).run = .ok (t, summary) ∧
      ((start .purity boxKeeps []).declareAll boxes).run = .ok (t', summary') ∧
      boxFails.RaisedBy boxKeeps t.program ∧ t.Slips t' 0 ∧
      t.gradeOf 3 = .not ∧ t'.gradeOf 3 = .domain := by
  rcases improvement_keeps_grades .purity boxFails boxKeeps [] [] boxes with
    ⟨t, summary, t', summary', hrun, hrun', _, hbetter⟩
  have hbefore : (fun x => (decide (boxFails.RaisedBy boxKeeps x.1.program), x.1.gradeOf 0,
      x.1.gradeOf 3)) <$> ((start .purity boxFails []).declareAll boxes).run =
      .ok (true, .strict, .not) := by decide +kernel
  have hafter : (fun x => (x.1.gradeOf 0, x.1.gradeOf 3)) <$>
      ((start .purity boxKeeps []).declareAll boxes).run = .ok (.domain, .domain) := by
    decide +kernel
  rw [hrun] at hbefore
  rw [hrun'] at hafter
  have hfound := Except.ok.inj hbefore
  have hfound' := Except.ok.inj hafter
  simp only [Prod.mk.injEq, decide_eq_true_eq] at hfound hfound'
  rcases hfound with ⟨hraised, hstrict, hfails⟩
  refine ⟨t, summary, t', summary', hrun, hrun', hraised, ?_, hfails, hfound'.2⟩
  refine (hbetter hraised 0 (by rw [hstrict]; rfl) (by rw [hfound'.1]; rfl)).resolve_left ?_
  rw [hstrict, hfound'.1]
  decide

end Session

end CoreShell
