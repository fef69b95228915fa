import CoreShell.Proofs.Ledger

/-!
# Every Run Converges

With at least two rounds more than there are units, a run comes to its end by
itself. A session without a limit of its own allows more rounds than that, so
its log never says that a run was cut short, whatever has happened to it.

## Theorems

* `roundBound_default`: A session without a limit allows enough rounds.
* `run_converges`: A run with enough rounds stops by itself.
* `runs_converge`: The same over all histories, with its effect on the log.
-/

namespace CoreShell

namespace Session

/-- A session without a limit allows enough rounds. -/
theorem roundBound_default {s : Session} (h : s.maxRounds = none) :
    s.roundBound = max 16 (4 * s.program.units.size + 4) ∧
      s.program.units.size + 2 ≤ s.roundBound := by
  have heq : s.roundBound = max 16 (4 * s.program.units.size + 4) := by
    rw [roundBound, h, Option.getD_none, leastBound, Nat.max_comm]
  refine ⟨heq, ?_⟩
  rw [heq]
  omega

/-- A run with enough rounds stops by itself, and its log does not say that it
    was cut short. -/
theorem run_converges {s : Session} (hs : s.Lawful)
    (hbound : s.program.units.size + 2 ≤ s.roundBound) :
    ∃ t summary, s.run = .ok (t, summary) ∧ summary.converged = true ∧
      summary.rounds ≤ s.program.units.size + 2 ∧
      ∀ d ∈ t.log.entries, d.reason ≠ .nonConvergence := by
  rcases run_spec hs with ⟨r, n, hr, hsteps, _, hrun⟩
  have hsize : s.prepared.program.units.size = s.program.units.size := by
    rw [s.prepared_settings.2.2.1, freeze_units]
  rcases iterate_converges (prepared_current hs) (hsize ▸ hbound) with
    ⟨r', hr', hconverged, hrounds⟩
  have hsame : r = r' := Except.ok.inj (hr.symm.trans hr')
  subst hsame
  rw [hsize] at hrounds
  refine ⟨_, _, hrun, hconverged, hrounds, ?_⟩
  exact r.finish_converged hconverged _ (hsteps.ongoing s.prepared_ongoing)

theorem run_maxRounds {s t : Session} {summary : RunSummary} (hs : s.Lawful)
    (h : s.run = .ok (t, summary)) : t.maxRounds = s.maxRounds := by
  rcases run_finish hs h with ⟨r, n, hsteps, ht⟩
  rw [ht, r.finish_eq]
  exact hsteps.maxRounds_eq.trans s.prepared_settings.2.2.2

/-- Without a limit, no run was reported as cut short. -/
def NeverCutShort (s : Session) : Prop :=
  s.maxRounds = none → ∀ d ∈ s.log.entries, d.reason ≠ .nonConvergence

/-- A limit is never taken back, and a run without one converges. -/
theorem perform_neverCutShort {s t : Session} {op : Operation} (hs : s.Lawful)
    (hlog : s.NeverCutShort) (h : s.perform op = .ok t) : t.NeverCutShort := by
  intro hmax
  cases op with
  | declare d =>
      have heq : s.declare d = t := Except.ok.inj h
      rcases s.declare_settings d with ⟨_, _, hkept, hsame⟩
      rw [heq] at hkept hsame
      rw [hsame]
      exact hlog (hkept.symm.trans hmax)
  | limitRounds n =>
      rw [← Except.ok.inj h] at hmax
      exact absurd hmax (by simp [limitRounds])
  | run =>
      rcases run_spec hs with ⟨r, _, _, _, _, hrun⟩
      have heq : r.finish s.roundBound = t := by
        rw [perform, hrun] at h
        exact Except.ok.inj h
      rw [heq] at hrun
      -- The run kept the limit as it was, so it had none to begin with.
      have hdefault := roundBound_default ((run_maxRounds hs hrun).symm.trans hmax)
      rcases run_converges hs hdefault.2 with ⟨t', _, hrun', _, _, hreasons⟩
      rw [(Prod.mk.inj (Except.ok.inj (hrun.symm.trans hrun'))).1]
      exact hreasons

/-- No history makes a run fail. A run stops by itself, after at most two rounds
    more than there are units, as soon as it may take that many. A session
    without a limit always may, so none of its runs is ever reported as cut
    short. -/
theorem runs_converge (axis : Axis) (catalog : Catalog) (scope : List String)
    (ops : List Operation) :
    ∃ s, (start axis catalog scope).performAll ops = .ok s ∧
      (s.program.units.size + 2 ≤ s.roundBound →
        ∃ t summary, s.run = .ok (t, summary) ∧ summary.converged = true ∧
          summary.rounds ≤ s.program.units.size + 2) ∧
      (s.maxRounds = none →
        s.roundBound = max 16 (4 * s.program.units.size + 4) ∧
        s.program.units.size + 2 ≤ s.roundBound ∧
        ∀ d ∈ s.log.entries, d.reason ≠ .nonConvergence) := by
  have hstart : (start axis catalog scope).NeverCutShort :=
    fun _ d hd => absurd hd List.not_mem_nil
  rcases performAll_induction (start_lawful axis catalog scope) hstart
    (fun _ _ _ hs hlog h => perform_neverCutShort hs hlog h) ops with ⟨s, hperform, hs, hlog⟩
  refine ⟨s, hperform, fun hbound => ?_, fun hmax => ?_⟩
  · rcases run_converges hs hbound with ⟨t, summary, hrun, hconverged, hrounds, _⟩
    exact ⟨t, summary, hrun, hconverged, hrounds⟩
  · exact ⟨(roundBound_default hmax).1, (roundBound_default hmax).2, hlog hmax⟩

/-- Two units that call each other, and just enough rounds for them. -/
def callCycle : List Operation :=
  [.declare (.unit ((UnitDecl.method "a.A" "ping").calling "a.A" "a.A.pong()")),
    .declare (.unit ((UnitDecl.method "a.A" "pong").calling "a.A" "a.A.ping()")), .limitRounds 4]

/-- A call cycle keeps its units unsure, but not the run going. -/
theorem runs_converge_callCycle :
    ∃ s, (start .purity {} []).performAll callCycle = .ok s ∧
      s.program.units.size = 2 ∧ s.roundBound = 4 ∧
      ∃ t summary, s.run = .ok (t, summary) ∧ summary.converged = true ∧ summary.rounds ≤ 4 := by
  rcases runs_converge .purity {} [] callCycle with ⟨s, hs, hruns, _⟩
  have heq := (Except.ok.inj hs).symm
  have hsize : s.program.units.size = 2 := by rw [heq]; decide +kernel
  have hbound : s.roundBound = 4 := by rw [heq]; decide +kernel
  rw [hsize] at hruns
  exact ⟨s, hs, hsize, hbound, hruns (Nat.le_of_eq hbound.symm)⟩

end Session

end CoreShell
