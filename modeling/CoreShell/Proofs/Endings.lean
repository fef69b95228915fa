import CoreShell.Proofs.Derivation
import CoreShell.Proofs.Facts
import CoreShell.Proofs.Reruns

/-!
# Where Runs End

A run may come after anything: declarations, limits that cut earlier runs short,
and runs that went on from there. Two things make its end independent of all
that. The grades and the log that a run begins with are right, whether it starts
over or goes on, so every run can be looked at by itself. And the program of a
session is the one that its declarations make, as far as it is not frozen, and
freezing it says nothing that the declarations do not.

So a run that stops by itself ends where a first run after all declarations ends,
and a run that is cut short ends with grades and a log that go together.

## Main definitions

* `Session.Grounded`: Everything that a session knows is right.
* `Session.Enduring`: What no history takes away from the rounds of a run.
* `Session.Ending`: Where the rounds of a run end.

## Theorems

* `eq_of_thawed_eq`: A frozen program is determined by its declarations.
* `Enduring.perform`, `Enduring.history`: What endures is there at the beginning and
  at the end of every run.
* `perform_grounded`: Whatever happens to a session, its next run begins with
  what is right.
* `performAll_thawed`: A history makes the program of its declarations.
* `history_looked`: Every run looks at every unit.
* `history_ending`: Where a run ends after any history.
-/

namespace CoreShell

namespace Program

/-- A frozen program is determined by its declarations. -/
theorem eq_of_thawed_eq {p q : Program} (h : p.thawed = q.thawed) (hp : p.frozen = true)
    (hq : q.frozen = true) (hindex : p.Indexed) (hindex' : q.Indexed) : p = q := by
  have hbuild : p.thawed.buildIndex = q.thawed.buildIndex := by rw [h]
  rcases p with ⟨units, types, fields, index, frozen⟩
  rcases q with ⟨units', types', fields', index', frozen'⟩
  have hsame : index = index' := hindex.trans (hbuild.trans hindex'.symm)
  have hfrozen : frozen = frozen' := Eq.trans hp hq.symm
  simp only [thawed, mk.injEq] at h
  rw [h.1, h.2.1, h.2.2.1, hsame, hfrozen]

/-- Declarations do not look at the facts of the last freeze. -/
theorem declare_thawed {p q : Program} (h : p.thawed = q.thawed) (d : Declaration) :
    (p.declare d).thawed = (q.declare d).thawed := by
  have htype : ∀ (d : TypeDecl) (p q : Program), p.thawed = q.thawed →
      (p.declareType d).1.thawed = (q.declareType d).1.thawed := by
    intro d p q h
    rw [← declareType_thawed, h, declareType_thawed]
  have hunit : ∀ (d : UnitDecl) (p q : Program), p.thawed = q.thawed →
      (p.submit d).1.thawed = (q.submit d).1.thawed := by
    intro d p q h
    rw [← submit_thawed, h, submit_thawed]
  cases d with
  | type d => exact htype d p q h
  | unit d => exact hunit d p q h
  | graph g =>
      have htypes := List.foldl_rel (r := fun p q : Program => p.thawed = q.thawed) (l := g.types) h
        fun d _ p q => htype d p q
      exact List.foldl_rel (r := fun p q : Program => p.thawed = q.thawed) htypes
        fun d _ p q => hunit d p q

end Program

/-- The end of a run only writes to the log. -/
theorem Progress.finish_stable {r : Progress} (h : r.session.Stable) (bound : Nat) :
    (r.finish bound).Stable := by
  rw [r.finish_eq]
  exact ⟨h.looked, h.undecided⟩

namespace Session

/-- Everything that a session knows in the middle of its rounds is right. -/
structure Grounded (r : Session) : Prop where
  current : r.Current
  indexed : r.program.Indexed
  sound : r.Sound
  balanced : r.Balanced
  ongoing : r.Ongoing

theorem Steps.grounded {n : Nat} {s t : Session} (h : Steps n s t) (hs : s.Grounded) :
    t.Grounded := by
  refine ⟨h.current hs.current, ?_, h.sound hs.current hs.sound,
    h.balanced hs.current hs.balanced, h.ongoing hs.ongoing⟩
  rw [h.sameTask.program]
  exact hs.indexed

/-- A run that starts over begins with nothing that could be wrong. -/
theorem prepared_grounded {s : Session} (hs : s.Lawful) (h : s.program.frozen = false) :
    s.prepared.Grounded := by
  refine ⟨prepared_current hs, ?_, prepared_sound hs h, prepared_balanced h, s.prepared_ongoing⟩
  rw [s.prepared_settings.2.2.1]
  exact Program.freeze_indexed h

/-- What is known does not depend on the limit on rounds. -/
theorem Grounded.withLimit {s : Session} (h : s.Grounded) (maxRounds : Option Nat) :
    ({ s with maxRounds } : Session).Grounded :=
  ⟨h.current.withLog s.log maxRounds, h.indexed, h.sound,
    h.balanced.same ⟨rfl, rfl, rfl⟩ rfl fun _ => Iff.rfl, h.ongoing⟩

/-- A run keeps what it begins with. -/
theorem Grounded.run {s : Session} (h : s.prepared.Grounded) (hs : s.Lawful) :
    ∃ (r : Progress) (n : Nat) (summary : RunSummary), Steps n s.prepared r.session ∧
      s.run = .ok (r.finish s.roundBound, summary) ∧ summary.converged = r.converged ∧
      r.session.Grounded ∧ (r.converged = true → r.session.Stable) := by
  rcases run_spec hs with ⟨r, n, _, hsteps, hstable, hrun⟩
  exact ⟨r, n, _, hsteps, hrun, rfl, hsteps.grounded h, hstable⟩

/-- A declaration changes nothing at all, or the program is no longer frozen. -/
theorem declare_cases (s : Session) (d : Declaration) :
    s.declare d = s ∨ (s.declare d).program.frozen = false :=
  declare_induction (P := fun t _ => t = s ∨ t.program.frozen = false)
    (fun _ _ _ _ => Or.inr rfl) (fun _ _ _ _ => Or.inr rfl) (p := s.program) (Or.inl rfl) d

/-- A property of sessions in the middle of their rounds that is there when a run
    starts over, that no step takes away, and that is not about the limit. -/
structure Enduring (P : Session → Prop) : Prop where
  fresh : ∀ s : Session, s.Lawful → s.program.frozen = false → P s.prepared
  step : ∀ s t : Session, s.Current → s.Step t → P s → P t
  limit : ∀ (s : Session) (maxRounds : Option Nat), P s → P { s with maxRounds }

namespace Enduring

variable {P : Session → Prop} (hP : Enduring P)
include hP

theorem steps {n : Nat} {s t : Session} (h : Steps n s t) (hs : s.Current) (hbegin : P s) :
    P t := by
  induction h with
  | refl _ => exact hbegin
  | tail hsteps hstep ih => exact hP.step _ _ (hsteps.current hs) hstep (ih hs hbegin)

/-- Whatever happens to a session, its next run begins with the property. -/
theorem perform {s t : Session} {op : Operation} (hs : s.Lawful) (h : P s.prepared)
    (hop : s.perform op = .ok t) : P t.prepared := by
  cases op with
  | declare d =>
      rw [← show s.declare d = t from Except.ok.inj hop]
      rcases s.declare_cases d with heq | hfrozen
      · rw [heq]
        exact h
      · exact hP.fresh _ (declare_lawful hs d) hfrozen
  | limitRounds n =>
      rw [← show s.limitRounds n = t from Except.ok.inj hop, limitRounds_prepared]
      exact hP.limit _ _ h
  | run =>
      rcases run_spec hs with ⟨r, _, _, hsteps, _, hrun⟩
      have hcurrent := prepared_current hs
      rw [Session.perform, hrun] at hop
      -- The next run goes on where the rounds of this one ended.
      rw [← show r.finish s.roundBound = t from Except.ok.inj hop, Progress.finish_prepared
        (hsteps.current hcurrent).frozen (hsteps.ongoing s.prepared_ongoing)]
      exact hP.steps hsteps hcurrent h

/-- The rounds of every run end with the property, whatever came before. -/
theorem history {axis : Axis} {catalog : Catalog} {scope : List String} {ops : List Operation}
    {s t : Session} {summary : RunSummary}
    (hperform : (start axis catalog scope).performAll ops = .ok s)
    (hrun : s.run = .ok (t, summary)) :
    ∃ r : Progress, t = r.finish s.roundBound ∧ P r.session := by
  have hstart := start_lawful axis catalog scope
  rcases performAll_kept (P := fun s => P s.prepared) hstart (hP.fresh _ hstart rfl)
    (fun _ _ _ => hP.perform) hperform with ⟨hs, hbegin⟩
  rcases run_finish hs hrun with ⟨r, n, hsteps, ht⟩
  exact ⟨r, ht, hP.steps hsteps (prepared_current hs) hbegin⟩

end Enduring

theorem grounded_enduring : Enduring Grounded :=
  ⟨fun _ => prepared_grounded, fun _ _ _ h => Steps.grounded (.tail (.refl _) h),
    fun _ maxRounds h => h.withLimit maxRounds⟩

/-- Whatever happens to a session, its next run begins with what is right. -/
theorem perform_grounded {s t : Session} {op : Operation} (hs : s.Lawful)
    (h : s.prepared.Grounded) (hop : s.perform op = .ok t) : t.prepared.Grounded :=
  grounded_enduring.perform hs h hop

/-- No operation changes what a session is about. -/
theorem perform_settings {s t : Session} {op : Operation} (hs : s.Lawful)
    (hop : s.perform op = .ok t) :
    t.axis = s.axis ∧ t.catalog = s.catalog ∧ t.log.scope = s.log.scope := by
  cases op with
  | declare d =>
      rcases s.declare_settings d with ⟨haxis, hcatalog, _, hlog⟩
      rw [← show s.declare d = t from Except.ok.inj hop, hlog]
      exact ⟨haxis, hcatalog, rfl⟩
  | limitRounds n =>
      rw [← show s.limitRounds n = t from Except.ok.inj hop]
      exact ⟨rfl, rfl, rfl⟩
  | run =>
      rcases exists_of_map_eq_ok hop with ⟨⟨t', summary⟩, hrun, rfl⟩
      rcases run_settings hs hrun with ⟨haxis, hcatalog, hscope, _⟩
      exact ⟨haxis, hcatalog, hscope⟩

/-- A history makes the program of its declarations, apart from what freezing
    it takes down. -/
theorem performAll_thawed {s t : Session} {p : Program} (hs : s.Lawful)
    (hp : s.program.thawed = p.thawed) {ops : List Operation} (h : s.performAll ops = .ok t) :
    t.program.thawed = (p.declareAll (Operation.declarations ops)).thawed := by
  induction ops generalizing s p with
  | nil =>
      rw [← show s = t from Except.ok.inj h]
      exact hp
  | cons op rest ih =>
      rw [performAll, List.foldlM_cons] at h
      rcases exists_of_bind_eq_ok h with ⟨r, hr, hrest⟩
      have hlawful : r.Lawful := by
        rcases perform_lawful hs op with ⟨r', hr', hlawful⟩
        rw [Except.ok.inj (hr.symm.trans hr')]
        exact hlawful
      cases op with
      | declare d =>
          refine ih (p := p.declare d) hlawful ?_ hrest
          rw [← show s.declare d = r from Except.ok.inj hr, declare_program]
          exact Program.declare_thawed hp d
      | limitRounds n =>
          refine ih hlawful ?_ hrest
          rw [← show s.limitRounds n = r from Except.ok.inj hr]
          exact hp
      | run =>
          refine ih hlawful ?_ hrest
          rcases exists_of_map_eq_ok hr with ⟨⟨r', summary⟩, hrun, rfl⟩
          rw [(run_settings hs hrun).2.2.2, Program.freeze_thawed]
          exact hp

/-- No history leaves a session without a round. -/
theorem performAll_roundBound {axis : Axis} {catalog : Catalog} {scope : List String}
    {ops : List Operation} {s : Session}
    (h : (start axis catalog scope).performAll ops = .ok s) : 0 < s.roundBound := by
  have hkeeps : ∀ (s t : Session) (op : Operation), s.Lawful → (∀ n ∈ s.maxRounds, 0 < n) →
      s.perform op = .ok t → ∀ n ∈ t.maxRounds, 0 < n := by
    intro s t op hs hlimit hop
    cases op with
    | declare d =>
        rw [← show s.declare d = t from Except.ok.inj hop, (s.declare_settings d).2.2.1]
        exact hlimit
    | limitRounds n =>
        rw [← show s.limitRounds n = t from Except.ok.inj hop]
        intro m hm
        rw [← Option.some.inj hm]
        exact Nat.lt_of_lt_of_le Nat.one_pos (Nat.le_max_right n 1)
    | run =>
        rcases exists_of_map_eq_ok hop with ⟨⟨t', summary⟩, hrun, rfl⟩
        rw [run_maxRounds hs hrun]
        exact hlimit
  have hlimit := (performAll_kept (P := fun s => ∀ n ∈ s.maxRounds, 0 < n)
    (start_lawful axis catalog scope) (by simp [start]) hkeeps h).2
  rcases hmax : s.maxRounds with _ | n
  · exact Nat.lt_of_lt_of_le (Nat.succ_pos _) (roundBound_default hmax).2
  · rw [roundBound, hmax]
    exact hlimit n hmax

/-- Every run looks at every unit, whatever came before. -/
theorem history_looked {axis : Axis} {catalog : Catalog} {scope : List String}
    {ops : List Operation} {s t : Session} {summary : RunSummary}
    (hperform : (start axis catalog scope).performAll ops = .ok s)
    (hrun : s.run = .ok (t, summary)) : t.Looked := by
  have hs := (performAll_kept (P := fun _ => True) (start_lawful axis catalog scope) trivial
    (fun _ _ _ _ _ _ => trivial) hperform).1
  rcases run_spec hs with ⟨r, _, hr, _, _, hrun'⟩
  have hlooked := iterate_looked (prepared_current hs) (performAll_roundBound hperform) hr
  rw [(Prod.mk.inj (Except.ok.inj (hrun.symm.trans hrun'))).1, r.finish_eq]
  exact hlooked

/-- Where the rounds of a run end, if `s` has only the declarations that were
    made before it. -/
structure Ending (s : Session) (r : Progress) : Prop where
  grounded : r.session.Grounded
  axis_eq : r.session.axis = s.axis
  catalog_eq : r.session.catalog = s.catalog
  program_eq : r.session.program = s.program.freeze
  scope_eq : r.session.log.scope = s.log.scope
  stable : r.converged = true → r.session.Stable

/-- A run that stops by itself might as well have been the first. -/
theorem Ending.outcome {s : Session} {r : Progress} (h : s.Ending r) (hr : r.converged = true) :
    s.Outcome r.session :=
  ⟨h.grounded.current, h.stable hr, h.grounded.sound, h.grounded.balanced, h.axis_eq,
    h.catalog_eq, h.program_eq, h.scope_eq⟩

/-- The end of a run changes no setting. -/
theorem Ending.settings {s : Session} {r : Progress} (h : s.Ending r) (bound : Nat) :
    (r.finish bound).axis = s.axis ∧ (r.finish bound).catalog = s.catalog ∧
      (r.finish bound).log.scope = s.log.scope := by
  rw [r.finish_scope, r.finish_eq]
  exact ⟨h.axis_eq, h.catalog_eq, h.scope_eq⟩

/-- What the end of a run is about, if its declarations were made in a new session. -/
theorem Ending.task {axis : Axis} {catalog : Catalog} {scope : List String}
    {ds : List Declaration} {r : Progress}
    (h : Ending ((start axis catalog scope).declareAll ds) r) (bound : Nat) :
    (r.finish bound).axis = axis ∧ (r.finish bound).catalog = catalog ∧
      (r.finish bound).program = (({} : Program).declareAll ds).freeze := by
  have hdeclared := start_declareAll axis catalog scope ds
  rcases h.settings bound with ⟨haxis, hcatalog, _⟩
  refine ⟨haxis.trans hdeclared.axis_eq, hcatalog.trans hdeclared.catalog_eq, ?_⟩
  rw [r.finish_program, h.program_eq, hdeclared.program_eq]

/-- Where a run ends after any history. -/
theorem history_ending (axis : Axis) (catalog : Catalog) (scope : List String)
    (ops : List Operation) :
    ∃ (s : Session) (r : Progress) (summary : RunSummary),
      (start axis catalog scope).performAll ops = .ok s ∧
      s.run = .ok (r.finish s.roundBound, summary) ∧ summary.converged = r.converged ∧
      Ending ((start axis catalog scope).declareAll (Operation.declarations ops)) r := by
  have hdeclared := start_declareAll axis catalog scope (Operation.declarations ops)
  have hstart := start_lawful axis catalog scope
  have hkeeps : ∀ (s t : Session) (op : Operation), s.Lawful →
      (s.prepared.Grounded ∧ s.axis = axis ∧ s.catalog = catalog ∧ s.log.scope = scope) →
      s.perform op = .ok t →
      t.prepared.Grounded ∧ t.axis = axis ∧ t.catalog = catalog ∧ t.log.scope = scope := by
    intro s t op hs h hop
    rcases perform_settings hs hop with ⟨haxis, hcatalog, hscope⟩
    exact ⟨perform_grounded hs h.1 hop, haxis.trans h.2.1, hcatalog.trans h.2.2.1,
      hscope.trans h.2.2.2⟩
  rcases performAll_induction hstart ⟨prepared_grounded hstart rfl, rfl, rfl, rfl⟩ hkeeps ops with
    ⟨s, hperform, hs, hbegin, haxis, hcatalog, hscope⟩
  rcases hbegin.run hs with ⟨r, n, summary, hsteps, hrun, hsummary, hr, hstable⟩
  rcases hsteps.sameTask with ⟨haxis', hcatalog', hprogram'⟩
  rcases s.prepared_settings with ⟨haxis'', hcatalog'', hprogram'', _⟩
  refine ⟨s, r, summary, hperform, hrun, hsummary, hr, ?_, ?_, ?_, ?_, hstable⟩
  · rw [haxis', haxis'', haxis, hdeclared.axis_eq]
  · rw [hcatalog', hcatalog'', hcatalog, hdeclared.catalog_eq]
  · -- Both programs are frozen and have the same declarations.
    refine Program.eq_of_thawed_eq ?_ hr.current.frozen (Program.freeze_frozen _) hr.indexed
      (Program.freeze_indexed hdeclared.frozen)
    rw [hprogram', hprogram'', Program.freeze_thawed, Program.freeze_thawed, hdeclared.program_eq]
    exact performAll_thawed hstart rfl hperform
  · rw [hsteps.scope_eq, prepared_scope, hscope, hdeclared.scope_eq]

end Session

end CoreShell
