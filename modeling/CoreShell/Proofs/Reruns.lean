import CoreShell.Proofs.Resume

/-!
# Runs in Between

A session may be run at any point of its history, and the runs in between leave
no trace. A declaration does not look at the facts of the last freeze, so the
declarations of a program are the same with and without them, and the first run
after a declaration starts over from those alone. A run without a declaration
since the last one makes a single round in which nothing happens, and explains
the same units again.

So a history without limits on rounds comes down to its declarations: the run at
its end leads to the same session as one run after all of them.

## Main definitions

* `Program.thawed`: A program as if it was never frozen.
* `Program.Blind`: A step that does not look at the facts of the last freeze.
* `Operation.declarations`: A history without its runs.
* `Session.Retraced`: A session and its declarations alone.

## Theorems

* `declareType_thawed`, `submit_thawed`: Declaring is blind.
* `rerun`: A second run makes one round and changes nothing.
* `Retraced.run`: A run forgets the runs before it.
* `runs_leave_no_trace`: The same over all histories.
-/

namespace CoreShell

namespace Program

/-- The program as if it was never frozen. -/
def thawed (p : Program) : Program :=
  { p with index := {}, frozen := false }

/-- A step that does not look at the facts of the last freeze, and leaves them
    alone. -/
def Blind {α β : Type} (step : Program → α → Program × β) : Prop :=
  ∀ (p : Program) (a : α), step p.thawed a = ((step p a).1.thawed, (step p a).2)

theorem Blind.all {α β : Type} {step : Program → α → Program × β} (h : Blind step) :
    Blind (internAll step) := by
  intro p as
  induction as generalizing p with
  | nil => rfl
  | cons a rest ih => simp only [internAll, h p a, ih (step p a).1]

theorem Blind.both {α β γ δ : Type} {step : Program → α → Program × β}
    {step' : Program → γ → Program × δ} (h : Blind step) (h' : Blind step') :
    Blind (internBoth step step') := by
  intro p a
  simp only [internBoth, h p a.1, h' (step p a.1).1 a.2]

theorem blind_type : Blind internType :=
  fun _ _ => rfl

theorem internUnit_thawed (p : Program) (qualified : String) (owner : TypeId) :
    p.thawed.internUnit qualified owner =
      ((p.internUnit qualified owner).1.thawed, (p.internUnit qualified owner).2) :=
  rfl

theorem blind_reference : Blind internReference :=
  fun _ _ => rfl

theorem blind_call : Blind internCall := by
  intro p call
  have htargets := blind_reference.all (p.internType call.owner).1 call.targets
  simp only [internCall, blind_type p call.owner, htargets]

theorem blind_field : Blind internField := by
  intro p f
  rw [internField, internField]
  rcases hfind : p.fields.findIdx? (· = f) with _ | id
  · simp only [show p.thawed.fields = p.fields from rfl, hfind]
    rfl
  · simp only [show p.thawed.fields = p.fields from rfl, hfind]

theorem blind_body : Blind internBody :=
  blind_call.all.both (blind_field.all.both (blind_field.all.both blind_reference.all))

theorem declareType_thawed (p : Program) (d : TypeDecl) :
    (p.thawed.declareType d).1.thawed = (p.declareType d).1.thawed := by
  rw [declareType_eq, declareType_eq, blind_type.both blind_type.all p (d.name, d.supertypes)]
  rfl

theorem submit_thawed (p : Program) (d : UnitDecl) :
    (p.thawed.submit d).1.thawed = (p.submit d).1.thawed := by
  rw [submit_eq, submit_eq, blind_type p d.owner]
  simp only []
  rw [internUnit_thawed, blind_body]
  rfl

theorem freeze_frozen (p : Program) : p.freeze.frozen = true := by
  rw [freeze]
  split
  · assumption
  · rfl

theorem freeze_thawed (p : Program) : p.freeze.thawed = p.thawed := by
  rw [freeze]
  split <;> rfl

theorem thawed_freeze {p : Program} (h : p.frozen = false) : p.thawed.freeze = p.freeze := by
  have hthawed : p.thawed.frozen = false := rfl
  rw [freeze, if_neg (by simp [hthawed]), freeze, if_neg (by simp [h])]
  rfl

end Program

namespace Operation

/-- What an operation declares, if it is a declaration. -/
def declaration? : Operation → Option Declaration
  | declare d => some d
  | _ => none

/-- A history without its runs and limits. -/
def declarations (ops : List Operation) : List Declaration :=
  ops.filterMap declaration?

end Operation

namespace Session

theorem run_eq (s : Session) :
    s.run = (do
      let r ← s.prepared.iterate s.prepared.roundBound
      return (r.finish s.prepared.roundBound,
        { rounds := r.rounds, converged := r.converged,
          counts := (r.finish s.prepared.roundBound).counts })) :=
  rfl

/-- A run is determined by where its rounds begin. -/
theorem run_congr {s t : Session} (h : s.prepared = t.prepared) : s.run = t.run := by
  rw [run_eq, run_eq, h]

theorem prepared_scope (s : Session) : s.prepared.log.scope = s.log.scope := by
  rw [prepared, prepare]
  split <;> rfl

/-- A run freezes the program and changes no setting. -/
theorem run_settings {s t : Session} {summary : RunSummary} (hs : s.Lawful)
    (h : s.run = .ok (t, summary)) :
    t.axis = s.axis ∧ t.catalog = s.catalog ∧ t.log.scope = s.log.scope ∧
      t.program = s.program.freeze := by
  rcases run_finish hs h with ⟨r, n, hsteps, rfl⟩
  rcases hsteps.sameTask with ⟨haxis, hcatalog, hprogram⟩
  rcases s.prepared_settings with ⟨haxis', hcatalog', hprogram', _⟩
  rw [r.finish_scope, hsteps.scope_eq, s.prepared_scope, r.finish_eq]
  exact ⟨haxis.trans haxis', hcatalog.trans hcatalog', rfl, hprogram.trans hprogram'⟩

/-- A second run makes one round and changes nothing. -/
theorem rerun {s t : Session} {summary : RunSummary} (hs : s.Lawful) (hmax : s.maxRounds = none)
    (h : s.run = .ok (t, summary)) :
    summary.converged = true ∧ summary.counts = t.counts ∧
      t.run = .ok (t, { rounds := 1, converged := true, counts := t.counts }) := by
  have hcurrent := run_current hs h
  have hunlimited := (run_maxRounds hs h).trans hmax
  rcases run_quiet hs hmax with ⟨r, n, _, hsteps, hconverged, hquiet, hrun⟩
  rcases Prod.mk.inj (Except.ok.inj (h.symm.trans hrun)) with ⟨rfl, rfl⟩
  have hongoing := hsteps.ongoing s.prepared_ongoing
  have hfrozen := (hsteps.current (prepared_current hs)).frozen
  refine ⟨hconverged, rfl, ?_⟩
  -- The next run begins where the rounds ended, and there it is quiet.
  rcases run_spec ⟨hcurrent.wellFormed, fun _ => hcurrent⟩ with ⟨q, _, hq, _, _, hagain⟩
  have hbound := (roundBound_default hunlimited).2
  obtain ⟨bound, hsucc⟩ : ∃ bound, (r.finish s.roundBound).roundBound = bound + 1 :=
    ⟨_, (Nat.sub_add_cancel (by omega : 1 ≤ (r.finish s.roundBound).roundBound)).symm⟩
  rw [Progress.finish_prepared hfrozen hongoing, hsucc, hquiet.iterate] at hq
  have hsame : q.finish (r.finish s.roundBound).roundBound = r.finish s.roundBound := by
    rw [← Except.ok.inj hq, Progress.finish, Progress.finish, if_pos rfl, if_pos hconverged]
  rw [hagain, hsame, ← Except.ok.inj hq]

/-- The session `s` has a history, and `t` only its declarations. Unless there
    was a declaration since, a run of `t` leads to `s`. -/
structure Retraced (s t : Session) : Prop where
  lawful : s.Lawful
  lawful' : t.Lawful
  frozen' : t.program.frozen = false
  axis_eq : s.axis = t.axis
  catalog_eq : s.catalog = t.catalog
  scope_eq : s.log.scope = t.log.scope
  unlimited : s.maxRounds = none
  unlimited' : t.maxRounds = none
  program_eq : s.program.thawed = t.program.thawed
  ran : s.program.frozen = true → ∃ summary, t.run = .ok (s, summary)

namespace Retraced

variable {s t : Session} (h : Retraced s t)
include h

theorem declareType (d : TypeDecl) : Retraced (s.declareType d) (t.declareType d) :=
  ⟨declare_lawful h.lawful (.type d), declare_lawful h.lawful' (.type d), rfl, h.axis_eq,
    h.catalog_eq, h.scope_eq, h.unlimited, h.unlimited',
    by
      change (s.program.declareType d).1.thawed = (t.program.declareType d).1.thawed
      rw [← Program.declareType_thawed, h.program_eq, Program.declareType_thawed],
    fun hc => absurd hc (by simp [Session.declareType, Program.declareType])⟩

theorem submit (d : UnitDecl) : Retraced (s.submit d).1 (t.submit d).1 :=
  ⟨declare_lawful h.lawful (.unit d), declare_lawful h.lawful' (.unit d), rfl, h.axis_eq,
    h.catalog_eq, h.scope_eq, h.unlimited, h.unlimited',
    by
      change (s.program.submit d).1.thawed = (t.program.submit d).1.thawed
      rw [← Program.submit_thawed, h.program_eq, Program.submit_thawed],
    fun hc => absurd hc (by simp [Session.submit, resetUnit, extendTables, Program.submit])⟩

theorem declare (d : Declaration) : Retraced (s.declare d) (t.declare d) := by
  cases d with
  | type d => exact h.declareType d
  | unit d => exact h.submit d
  | graph g =>
      have htypes := List.foldl_rel (l := g.types) h fun d _ _ _ h => h.declareType d
      exact List.foldl_rel htypes fun d _ _ _ h => h.submit d

/-- Two sessions with the same declarations start over alike. -/
theorem prepared_eq (hfrozen : s.program.frozen = false) : s.prepared = t.prepared := by
  have hfreeze : s.program.freeze = t.program.freeze := by
    rw [← Program.thawed_freeze hfrozen, h.program_eq, Program.thawed_freeze h.frozen']
  rw [prepared_of_not_frozen hfrozen, prepared_of_not_frozen h.frozen']
  simp only [startedOver, reset, Log.clear, h.axis_eq, h.catalog_eq, h.scope_eq,
    h.unlimited, h.unlimited', hfreeze]
  rfl

/-- A run forgets the runs before it. -/
theorem run : ∃ r summary summary', s.run = .ok (r, summary) ∧ t.run = .ok (r, summary') := by
  by_cases hfrozen : s.program.frozen = true
  -- Without a declaration since the last run, this one is a second run.
  · rcases h.ran hfrozen with ⟨summary, hrun⟩
    exact ⟨s, _, summary, (rerun h.lawful' h.unlimited' hrun).2.2, hrun⟩
  · rcases run_spec h.lawful' with ⟨r, _, _, _, _, hrun⟩
    have hsame := run_congr (h.prepared_eq (by simpa using hfrozen))
    exact ⟨_, _, _, hsame.trans hrun, hrun⟩

/-- So it does not matter that the session was run. -/
theorem afterRun {r : Session} {summary : RunSummary} (hrun : s.run = .ok (r, summary)) :
    Retraced r t := by
  have hcurrent := run_current h.lawful hrun
  rcases run_settings h.lawful hrun with ⟨haxis, hcatalog, hscope, hprogram⟩
  rcases h.run with ⟨r', _, summary', hrun', hall⟩
  rw [(Prod.mk.inj (Except.ok.inj (hrun'.symm.trans hrun))).1] at hall
  refine ⟨⟨hcurrent.wellFormed, fun _ => hcurrent⟩, h.lawful', h.frozen', haxis.trans h.axis_eq,
    hcatalog.trans h.catalog_eq, hscope.trans h.scope_eq,
    (run_maxRounds h.lawful hrun).trans h.unlimited, h.unlimited', ?_, fun _ => ⟨summary', hall⟩⟩
  rw [hprogram, Program.freeze_thawed, h.program_eq]

/-- A history without limits comes down to its declarations. -/
theorem performAll {ops : List Operation} (hops : ∀ n, Operation.limitRounds n ∉ ops) :
    ∃ r, s.performAll ops = .ok r ∧ Retraced r (t.declareAll (Operation.declarations ops)) := by
  induction ops generalizing s t with
  | nil => exact ⟨s, rfl, h⟩
  | cons op rest ih =>
      have hrest : ∀ n, Operation.limitRounds n ∉ rest :=
        fun n hn => hops n (List.mem_cons_of_mem op hn)
      cases op with
      | declare d => exact ih (h.declare d) hrest
      | limitRounds n => exact absurd List.mem_cons_self (hops n)
      | run =>
          -- Here `s` moves on and `t` stays.
          rcases h.run with ⟨r, _, _, hrun, _⟩
          rcases ih (h.afterRun hrun) hrest with ⟨q, hq, hlast⟩
          refine ⟨q, ?_, hlast⟩
          rw [Session.performAll, List.foldlM_cons, perform, hrun]
          exact hq

end Retraced

theorem start_retraced (axis : Axis) (catalog : Catalog) (scope : List String) :
    Retraced (start axis catalog scope) (start axis catalog scope) := by
  have hlawful := start_lawful axis catalog scope
  exact ⟨hlawful, hlawful, rfl, rfl, rfl, rfl, rfl, rfl, rfl, fun hc => absurd hc (by simp [start])⟩

/-- Runs in between leave no trace. Take two histories without limits on rounds
    that make the same declarations in the same order. However often and
    wherever they run the session, the run at their end leads to one and the
    same session, and one more run makes a single round and changes nothing. -/
theorem runs_leave_no_trace (axis : Axis) (catalog : Catalog) (scope : List String)
    (ops ops' : List Operation) (hops : ∀ n, Operation.limitRounds n ∉ ops)
    (hops' : ∀ n, Operation.limitRounds n ∉ ops')
    (hsame : Operation.declarations ops = Operation.declarations ops') :
    ∃ s s' t summary summary', (start axis catalog scope).performAll ops = .ok s ∧
      (start axis catalog scope).performAll ops' = .ok s' ∧
      s.run = .ok (t, summary) ∧ s'.run = .ok (t, summary') ∧
      summary.converged = true ∧ summary'.converged = true ∧
      summary.counts = t.counts ∧ summary'.counts = t.counts ∧
      t.run = .ok (t, { rounds := 1, converged := true, counts := t.counts }) := by
  have hstart := start_retraced axis catalog scope
  rcases hstart.performAll hops with ⟨s, hs, h⟩
  rcases hstart.performAll hops' with ⟨s', hs', h'⟩
  rw [← hsame] at h'
  rcases h.run with ⟨t, summary, once, hrun, honce⟩
  rcases h'.run with ⟨t', summary', once', hrun', honce'⟩
  -- Both runs lead where a single run after all declarations leads.
  rw [(Prod.mk.inj (Except.ok.inj (honce'.symm.trans honce))).1] at hrun'
  rcases rerun h.lawful h.unlimited hrun with ⟨hconverged, hcounts, hagain⟩
  rcases rerun h'.lawful h'.unlimited hrun' with ⟨hconverged', hcounts', _⟩
  exact ⟨s, s', t, summary, summary', hs, hs', hrun, hrun', hconverged, hconverged', hcounts,
    hcounts', hagain⟩

/-- The chain of calls, with a run after each of its units. -/
def callChainWithRuns : List Operation :=
  callChain.flatMap fun d => [.declare d, .run]

/-- A run after each unit leads where one run after the last of them leads. -/
theorem runs_leave_no_trace_callChain :
    Operation.declarations callChainWithRuns = callChain ∧
      ∃ s s' t summary summary', (start .purity {} []).performAll callChainWithRuns = .ok s ∧
        (start .purity {} []).performAll (callChain.map .declare) = .ok s' ∧
        s.run = .ok (t, summary) ∧ s'.run = .ok (t, summary') ∧
        summary.counts = t.counts ∧ summary'.counts = t.counts := by
  have hdeclared : Operation.declarations callChainWithRuns = callChain := rfl
  have hsame : Operation.declarations callChainWithRuns =
      Operation.declarations (callChain.map .declare) := rfl
  have hruns : ∀ n, Operation.limitRounds n ∉ callChainWithRuns := by
    simp [callChainWithRuns, callChain]
  have hplain : ∀ n, Operation.limitRounds n ∉ callChain.map Operation.declare := by simp
  rcases runs_leave_no_trace .purity {} [] _ _ hruns hplain hsame with
    ⟨s, s', t, summary, summary', hs, hs', hrun, hrun', _, _, hcounts, hcounts', _⟩
  exact ⟨hdeclared, s, s', t, summary, summary', hs, hs', hrun, hrun', hcounts, hcounts'⟩

end Session

end CoreShell
