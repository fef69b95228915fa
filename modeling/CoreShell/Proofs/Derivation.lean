import CoreShell.Proofs.Convergence

/-!
# The Least Solution of the Rules

The grades a program deserves can be said without any rounds: they are those
that can be derived. Derivations start at catalogue entries and at units judged
by themselves, and go on to units whose call targets or overriders have
derivations already. Nothing is derived for a call cycle that nothing breaks, or
for an open interface.

A run computes exactly these grades. That it derives every final grade holds
step by step. That it misses none is where its end comes in: a session with
nothing left to do is closed under the rules, so by induction on a derivation it
has the grade derived.

## Main definitions

* `Derives`: The least solution of the rules.
* `Session.Sound`: Every final grade is derived.

## Theorems

* `Derives.of_verdict`: A verdict on derived grades is derived.
* `Derives.induction`: Derivations are verdicts on derivations.
* `Step.sound`: Every step derives the grade it gives.
* `Stable.complete`: A session with nothing left to do has every derived grade.
* `run_computes_derivations`: A run computes exactly what can be derived.
-/

namespace CoreShell

/-- The grades that can be derived for the units of a program. -/
inductive Derives (axis : Axis) (catalog : Catalog) (p : Program) : UnitId → Grade → Prop
  /-- The catalogue lists the unit. -/
  | listed {id : UnitId} {u : CodeUnit} {g : Grade} (unit : p.units[id]? = some u)
      (listed : catalog.lookup u.qualified = some g) : Derives axis catalog p id g
  /-- The local rule rejects the unit. -/
  | rejected {id : UnitId} {u : CodeUnit} {finding : Finding} (subject : Subject catalog p id u)
      (judged : axis.judge p u = .rejected finding) : Derives axis catalog p id .not
  /-- The unit calls nothing and keeps its floor. -/
  | leaf {id : UnitId} {u : CodeUnit} {floor : Grade} (subject : Subject catalog p id u)
      (judged : axis.judge p u = .provisional floor) (none : u.targets = []) :
      Derives axis catalog p id floor
  /-- No exposed call target fails, and one that keeps to its domain lowers the
      floor. -/
  | settled {id : UnitId} {u : CodeUnit} {floor : Grade} {grade : UnitId → Grade}
      (subject : Subject catalog p id u) (judged : axis.judge p u = .provisional floor)
      (derived : ∀ t ∈ u.targets, Derives axis catalog p t (grade t))
      (safe : ∀ t ∈ p.exposedTargets u, grade t ≠ .not) :
      Derives axis catalog p id
        (if ∃ t ∈ u.targets, grade t = .domain then floor.weakenTo .domain else floor)
  /-- An exposed call target fails. -/
  | absorbed {id t : UnitId} {u : CodeUnit} {floor : Grade} {grade : UnitId → Grade}
      (subject : Subject catalog p id u) (judged : axis.judge p u = .provisional floor)
      (derived : ∀ t ∈ u.targets, Derives axis catalog p t (grade t))
      (exposed : t ∈ p.exposedTargets u) (fails : grade t = .not) :
      Derives axis catalog p id .not
  /-- All overriders are strict, and there is one. -/
  | strict {id : UnitId} {u : CodeUnit} (subject : Subject catalog p id u)
      (judged : axis.judge p u = .dispatch) (some : p.overridersOf u ≠ [])
      (derived : ∀ o ∈ p.overridersOf u, Derives axis catalog p o .strict) :
      Derives axis catalog p id .strict
  /-- All overriders are strict or domain, and one is not strict. -/
  | domain {id o : UnitId} {u : CodeUnit} {grade : UnitId → Grade}
      (subject : Subject catalog p id u) (judged : axis.judge p u = .dispatch)
      (derived : ∀ o ∈ p.overridersOf u, Derives axis catalog p o (grade o))
      (free : ∀ o ∈ p.overridersOf u, grade o = .strict ∨ grade o = .domain)
      (overrider : o ∈ p.overridersOf u) (domain : grade o = .domain) :
      Derives axis catalog p id .domain
  /-- One overrider fails, whatever the others do. -/
  | failed {id o : UnitId} {u : CodeUnit} (subject : Subject catalog p id u)
      (judged : axis.judge p u = .dispatch) (overrider : o ∈ p.overridersOf u)
      (derived : Derives axis catalog p o .not) : Derives axis catalog p id .not

namespace Derives

variable {axis : Axis} {catalog : Catalog} {p : Program}

/-- A verdict on derived grades is derived. -/
theorem of_verdict {id : UnitId} {u : CodeUnit} {g : Grade} {grade : UnitId → Grade}
    (hsubject : Subject catalog p id u)
    (hknown : ∀ j, (grade j).isFinal = true → Derives axis catalog p j (grade j))
    (h : UnitVerdict axis p u grade g) : Derives axis catalog p id g := by
  cases h with
  | rejected hjudge => exact .rejected hsubject hjudge
  | called hjudge hcalls =>
      have hderived : ∀ t ∈ u.targets, Derives axis catalog p t (grade t) :=
        fun t ht => hknown t (hcalls.decided t ht)
      -- Lowered and kept are the two outcomes of one rule of derivation.
      cases hcalls with
      | absorbed _ hexposed hfails => exact .absorbed hsubject hjudge hderived hexposed hfails
      | lowered _ hsafe ht hdomain =>
          have hsettled := settled hsubject hjudge hderived hsafe
          rw [if_pos ⟨_, ht, hdomain⟩] at hsettled
          exact hsettled
      | kept _ hsafe hhigh =>
          have hsettled := settled hsubject hjudge hderived hsafe
          rw [if_neg (fun ⟨t, ht, hdomain⟩ => hhigh t ht hdomain)] at hsettled
          exact hsettled
  | dispatched hjudge hdispatch =>
      cases hdispatch with
      | strict hsome hall =>
          refine .strict hsubject hjudge hsome fun o ho => ?_
          have hderived := hknown o (by rw [hall o ho]; rfl)
          rw [hall o ho] at hderived
          exact hderived
      | domain hall ho hdomain =>
          refine .domain hsubject hjudge (fun o ho => hknown o ?_) hall ho hdomain
          rcases hall o ho with h | h <;> rw [h] <;> rfl
      | @failed o ho hfails =>
          have hderived := hknown o (by rw [hfails]; rfl)
          rw [hfails] at hderived
          exact .failed hsubject hjudge ho hderived

/-- Grades for some units, and none for the others. -/
def only (known : List UnitId) (grade : UnitId → Grade) (id : UnitId) : Grade :=
  if id ∈ known then grade id else .unchecked

theorem only_of_mem {known : List UnitId} {id : UnitId} (h : id ∈ known) (grade : UnitId → Grade) :
    only known grade id = grade id :=
  if_pos h

theorem mem_of_only {known : List UnitId} {grade : UnitId → Grade} {id : UnitId}
    (h : (only known grade id).isFinal = true) : id ∈ known := by
  by_contra hc
  rw [only, if_neg hc] at h
  exact absurd h (by decide)

theorem isFinal {id : UnitId} {g : Grade} (h : Derives axis catalog p id g) :
    g.isFinal = true := by
  cases h with
  | listed _ hlisted => exact Catalog.lookup_isFinal hlisted
  | leaf _ hjudge _ => rcases judge_provisional hjudge with h | h <;> rw [h] <;> rfl
  | settled _ hjudge _ _ =>
      rw [weakenTo_domain (judge_provisional hjudge)]
      split
      · rfl
      · rcases judge_provisional hjudge with h | h <;> rw [h] <;> rfl
  | _ => rfl

theorem decided_of_derived {known : List UnitId} {grade : UnitId → Grade}
    (h : ∀ j ∈ known, Derives axis catalog p j (grade j)) :
    ∀ j ∈ known, (only known grade j).isFinal = true := by
  intro j hj
  rw [only_of_mem hj]
  exact (h j hj).isFinal

theorem passed_on {P : UnitId → Grade → Prop} {known : List UnitId} {grade : UnitId → Grade}
    (h : ∀ j ∈ known, P j (grade j)) :
    ∀ j, (only known grade j).isFinal = true → P j (only known grade j) := by
  intro j hj
  rw [only_of_mem (mem_of_only hj)]
  exact h j (mem_of_only hj)

/-- Derivations are verdicts on derivations: what holds of listed units and is
    passed on by verdicts holds of everything derived. -/
theorem induction {P : UnitId → Grade → Prop}
    (hlisted : ∀ id u g, p.units[id]? = some u → catalog.lookup u.qualified = some g → P id g)
    (hverdict : ∀ id u g (grade : UnitId → Grade), Subject catalog p id u →
      (∀ j, (grade j).isFinal = true → P j (grade j)) → UnitVerdict axis p u grade g → P id g)
    {id : UnitId} {g : Grade} (h : Derives axis catalog p id g) : P id g := by
  -- A derivation gives grades to the units it rests on. All others are made
  -- unchecked, so that a verdict cannot rest on them.
  induction h with
  | listed hu hlist => exact hlisted _ _ _ hu hlist
  | rejected hsubject hjudge =>
      exact hverdict _ _ _ (only [] fun _ => .unchecked) hsubject
        (fun j hj => absurd (mem_of_only hj) List.not_mem_nil) (.rejected hjudge)
  | @leaf id u floor hsubject hjudge hnone =>
      refine hverdict _ _ _ (only [] fun _ => .unchecked) hsubject
        (fun j hj => absurd (mem_of_only hj) List.not_mem_nil) (.called hjudge (.kept ?_ ?_ ?_))
      · simp [hnone]
      · exact fun t ht => absurd (p.exposedTargets_subset u ht) (by simp [hnone])
      · simp [hnone]
  | @settled id u floor grade hsubject hjudge hderived hsafe ih =>
      have hknown := passed_on ih
      have hdecided := decided_of_derived hderived
      have hsafe' : ∀ t ∈ p.exposedTargets u, only u.targets grade t ≠ .not := by
        intro t ht
        rw [only_of_mem (p.exposedTargets_subset u ht)]
        exact hsafe t ht
      refine hverdict _ _ _ _ hsubject hknown (.called hjudge ?_)
      by_cases hdomain : ∃ t ∈ u.targets, grade t = .domain
      · rcases hdomain with ⟨t, ht, heq⟩
        rw [if_pos ⟨t, ht, heq⟩]
        exact .lowered hdecided hsafe' ht (by rw [only_of_mem ht, heq])
      · rw [if_neg hdomain]
        refine .kept hdecided hsafe' fun t ht heq => hdomain ⟨t, ht, ?_⟩
        rw [only_of_mem ht] at heq
        exact heq
  | @absorbed id t u floor grade hsubject hjudge hderived hexposed hfails ih =>
      refine hverdict _ _ _ _ hsubject (passed_on ih) (.called hjudge (.absorbed ?_ hexposed ?_))
      · exact decided_of_derived hderived
      · rw [only_of_mem (p.exposedTargets_subset u hexposed), hfails]
  | @strict id u hsubject hjudge hsome _ ih =>
      refine hverdict _ _ _ (only (p.overridersOf u) fun _ => .strict) hsubject (passed_on ih)
        (.dispatched hjudge (.strict hsome fun o ho => only_of_mem ho _))
  | @domain id o u grade hsubject hjudge _ hfree ho hdomain ih =>
      refine hverdict _ _ _ _ hsubject (passed_on ih) (.dispatched hjudge (.domain ?_ ho ?_))
      · intro o ho
        rw [only_of_mem ho]
        exact hfree o ho
      · rw [only_of_mem ho, hdomain]
  | @failed id o u hsubject hjudge ho _ ih =>
      -- One failing overrider is enough, even if nothing is derived for the others.
      refine hverdict _ _ _ (only [o] fun _ => .not) hsubject (passed_on ?_)
        (.dispatched hjudge (.failed ho (only_of_mem List.mem_cons_self _)))
      intro t ht
      rw [List.mem_singleton.1 ht]
      exact ih

end Derives

namespace Session

/-- Every final grade is derived. -/
def Sound (s : Session) : Prop :=
  ∀ id, (s.gradeOf id).isFinal = true → Derives s.axis s.catalog s.program id (s.gradeOf id)

/-- The grades that a run starts over from are those of the catalogue. -/
theorem prepared_sound {s : Session} (hs : s.Lawful) (h : s.program.frozen = false) :
    s.prepared.Sound := by
  intro id hfinal
  have hchecked : s.prepared.gradeOf id ≠ .unchecked :=
    fun hc => absurd hfinal (by rw [hc]; decide)
  rcases (prepared_current hs).exists_unit hchecked with ⟨u, hu⟩
  rcases s.prepared_settings with ⟨_, hcatalog, hprogram, _⟩
  have hinit := prepared_gradeOf h (hprogram ▸ hu)
  rw [initialGrade] at hinit
  rcases hlist : s.catalog.lookup u.qualified with _ | g
  · rw [hlist] at hinit
    exact absurd hinit hchecked
  · rw [hinit, hlist, hcatalog]
    exact .listed hu hlist

/-- Every step derives the grade it gives. -/
theorem Step.sound {s t : Session} (hcurrent : s.Current) (h : s.Step t) (hs : s.Sound) :
    t.Sound := by
  intro j hfinal
  rw [h.sameTask.axis, h.sameTask.catalog, h.sameTask.program]
  rcases h.gradeOf_cases hcurrent j with hsame | hunsure | ⟨u, hsubject, hverdict⟩
  · rw [hsame] at hfinal ⊢
    exact hs j hfinal
  · exact absurd hfinal (by rw [hunsure]; decide)
  · exact .of_verdict hsubject hs hverdict

theorem Steps.sound {n : Nat} {s t : Session} (h : Steps n s t) (hcurrent : s.Current)
    (hs : s.Sound) : t.Sound := by
  induction h with
  | refl _ => exact hs
  | tail hsteps hstep ih => exact hstep.sound (hsteps.current hcurrent) (ih hcurrent hs)

/-- A session with nothing left to do has given every verdict there is. -/
theorem Stable.gradeOf_eq {s : Session} (hstable : s.Stable) (hs : s.Current) {id : UnitId}
    {u : CodeUnit} {g : Grade} (hsubject : Subject s.catalog s.program id u)
    (hverdict : UnitVerdict s.axis s.program u s.gradeOf g) : s.gradeOf id = g := by
  by_cases hfinal : (s.gradeOf id).isFinal = true
  · exact (hs.verdict_of_final hsubject hfinal).unique hverdict
  · rw [Grade.isFinal_eq_not, Bool.not_eq_true', Bool.not_eq_false] at hfinal
    rcases (Grade.isTemporary_iff _).1 hfinal with hunchecked | hunsure
    · exact absurd hunchecked (hstable.looked id u hsubject.unit hsubject.submitted)
    · exact absurd hverdict (hstable.undecided id u hsubject.unit hunsure g)

/-- A session with nothing left to do has every derived grade. -/
theorem Stable.complete {s : Session} (hstable : s.Stable) (hs : s.Current) {id : UnitId}
    {g : Grade} (h : Derives s.axis s.catalog s.program id g) : s.gradeOf id = g := by
  -- By induction the units a derivation rests on have the grades it derives.
  refine h.induction (P := fun id g => s.gradeOf id = g) ?_ ?_
  · exact fun id u g hu hlist => hs.gradeOf_listed hu hlist
  · intro id u g grade hsubject hknown hverdict
    exact hstable.gradeOf_eq hs hsubject (hverdict.agrees hknown)

/-- Without a derivation, a submitted unit stays unsure and an external one
    unchecked. -/
theorem Stable.gradeOf_of_not_final {s : Session} (hstable : s.Stable) (hs : s.Current)
    {id : UnitId} {u : CodeUnit} (hu : s.program.units[id]? = some u)
    (h : (s.gradeOf id).isFinal = false) :
    s.gradeOf id = if u.submitted then .unsure else .unchecked := by
  have hnot : ∀ g : Grade, g.isFinal = true → s.gradeOf id ≠ g := by
    intro g hg hc
    rw [hc, hg] at h
    exact absurd h (by decide)
  cases hs.entry id u hu with
  | listed hlist hg _ => exact absurd hg (hnot _ (Catalog.lookup_isFinal hlist))
  | foreign _ hext hg _ => rw [hg, hext]; rfl
  | fresh hsubject hg _ => exact absurd hg (hstable.looked id u hu hsubject.submitted)
  | opened hsubject hg _ _ => rw [hg, hsubject.submitted]; rfl
  | waiting hsubject hg _ _ _ _ => rw [hg, hsubject.submitted]; rfl
  | decided _ hg _ hverdict => exact absurd hg (hnot _ hverdict.isFinal)

/-- Where the rounds of a session come to their end if they start over. -/
structure Outcome (s r : Session) : Prop where
  current : r.Current
  stable : r.Stable
  sound : r.Sound
  balanced : r.Balanced
  axis_eq : r.axis = s.axis
  catalog_eq : r.catalog = s.catalog
  program_eq : r.program = s.program.freeze
  scope_eq : r.log.scope = s.log.scope

/-- A run that starts over without a limit comes to an end of its own. -/
theorem run_outcome {s : Session} (hs : s.Lawful) (hfrozen : s.program.frozen = false)
    (hmax : s.maxRounds = none) :
    ∃ (r : Progress) (summary : RunSummary), s.run = .ok (r.finish s.roundBound, summary) ∧
      summary.counts = (r.finish s.roundBound).counts ∧ r.converged = true ∧
      s.Outcome r.session := by
  rcases run_spec hs with ⟨r, n, _, hsteps, hstable, hrun⟩
  rcases run_converges hs (roundBound_default hmax).2 with ⟨_, _, hrun', hconverged, _, _⟩
  -- Both lemmas are about the one run there is.
  have hsummary := (Prod.mk.inj (Except.ok.inj (hrun.symm.trans hrun'))).2
  rw [← hsummary] at hconverged
  have hcurrent := prepared_current hs
  have htask := hsteps.sameTask
  rcases s.prepared_settings with ⟨haxis, hcatalog, hprogram, _⟩
  refine ⟨r, _, hrun, rfl, hconverged, hsteps.current hcurrent, hstable hconverged,
    hsteps.sound hcurrent (prepared_sound hs hfrozen),
    hsteps.balanced hcurrent (prepared_balanced hfrozen), htask.axis.trans haxis,
    htask.catalog.trans hcatalog, htask.program.trans hprogram, ?_⟩
  rw [hsteps.scope_eq, prepared_log hfrozen]
  rfl

/-- The grades at the end are exactly those that can be derived. -/
theorem Outcome.derives_iff {s r : Session} (h : s.Outcome r) (id : UnitId) (g : Grade) :
    Derives s.axis s.catalog s.program.freeze id g ↔ r.gradeOf id = g ∧ g.isFinal = true := by
  rw [← h.axis_eq, ← h.catalog_eq, ← h.program_eq]
  constructor
  · exact fun hd => ⟨h.stable.complete h.current hd, hd.isFinal⟩
  · rintro ⟨rfl, hfinal⟩
    exact h.sound id hfinal

/-- Declare anything in any order and run without a limit. The run succeeds and
    gives exactly the grades that can be derived; without a derivation a
    submitted unit is left unsure and an external one unchecked. -/
theorem run_computes_derivations (axis : Axis) (catalog : Catalog) (scope : List String)
    (ds : List Declaration) :
    ∃ t summary, ((start axis catalog scope).declareAll ds).run = .ok (t, summary) ∧
      t.program = (({} : Program).declareAll ds).freeze ∧
      (∀ id g, t.gradeOf id = g ∧ g.isFinal = true ↔ Derives axis catalog t.program id g) ∧
      ∀ id u, t.program.units[id]? = some u → (∀ g, ¬ Derives axis catalog t.program id g) →
        t.gradeOf id = if u.submitted then .unsure else .unchecked := by
  have hdeclared := start_declareAll axis catalog scope ds
  rcases run_outcome hdeclared.lawful hdeclared.frozen hdeclared.maxRounds_eq with
    ⟨r, summary, hrun, _, _, houtcome⟩
  have hderives := houtcome.derives_iff
  have hprogram := houtcome.program_eq
  rw [hdeclared.axis_eq, hdeclared.catalog_eq, ← hprogram] at hderives
  rw [hdeclared.program_eq] at hprogram
  refine ⟨_, summary, hrun, ?_⟩
  -- The end of the run only writes to the log; the grades are those of the rounds.
  simp only [Progress.finish_program, Progress.finish_gradeOf]
  refine ⟨hprogram, fun id g => (hderives id g).symm, fun id u hu hnone => ?_⟩
  refine houtcome.stable.gradeOf_of_not_final houtcome.current hu ?_
  rw [Bool.eq_false_iff]
  exact fun hfinal => hnone _ ((hderives id _).2 ⟨rfl, hfinal⟩)

end Session

end CoreShell
