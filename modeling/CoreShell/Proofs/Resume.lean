import CoreShell.Proofs.Convergence
import CoreShell.Proofs.Parallel
import CoreShell.Proofs.Untouched

/-!
# Resuming a Run

A run that meets its bound is not lost. The next run drops what the last one
said about its own end and goes on with the rounds, so any number of limited runs
makes the same rounds, one after another, as a single run that is allowed all of
them. Once a round has changed nothing, no later round changes anything, and the
log of a session then says what it would say after one run without a limit.

The rounds are counted apart from any run: `afterRounds` makes a number of them
and does not stop early.

## Main definitions

* `Session.afterRounds`: A number of rounds, whether or not they change anything.
* `Session.Quiet`: A round changes nothing.
* `Session.runLimited`: One limited run after another.
* `Session.allowance`: How many rounds limited runs may make.
* `Session.Resumed`: A session after limited runs.

## Theorems

* `afterRounds_add`: Rounds can be made in two parts.
* `iterate_afterRounds`: A run makes its rounds, and stops when it is quiet.
* `Quiet.unique`: There is one place to become quiet at.
* `finish_prepared`: The next run goes on where the rounds of the last one ended.
* `Resumed.step`: One more limited run makes that many rounds more.
* `limited_runs_resume`: Limited runs add up to a single one.
-/

namespace CoreShell

namespace Log

/-- What only holds at the end of a run is dropped whether or not it was in
    scope. -/
theorem dropEndOfRun_record (log : Log) {d : Diagnostic} (h : d.reason.isEndOfRun = true) :
    (log.record d).dropEndOfRun = log.dropEndOfRun := by
  rw [record]
  split
  · simp [dropEndOfRun, List.filter_append, h]
  · rfl

theorem dropEndOfRun_recordRun (log : Log) {reason : Reason} (h : reason.isEndOfRun = true)
    (message : String) : (log.recordRun reason message).dropEndOfRun = log.dropEndOfRun := by
  simp [dropEndOfRun, recordRun, List.filter_append, h]

theorem dropEndOfRun_foldl_record {α : Type} {f : α → Diagnostic}
    (h : ∀ a, (f a).reason.isEndOfRun = true) (l : List α) (log : Log) :
    (l.foldl (fun log a => log.record (f a)) log).dropEndOfRun = log.dropEndOfRun := by
  induction l generalizing log with
  | nil => rfl
  | cons a rest ih => rw [List.foldl_cons, ih, dropEndOfRun_record log (h a)]

end Log

namespace Session

theorem Ongoing.dropEndOfRun {s : Session} (h : s.Ongoing) : s.log.dropEndOfRun = s.log := by
  have hall : s.log.entries.filter (fun d => !d.reason.isEndOfRun) = s.log.entries :=
    List.filter_eq_self.2 fun d hd => by simp [h d hd]
  rw [Log.dropEndOfRun, hall]

theorem reportUnresolved_dropEndOfRun (s : Session) :
    s.reportUnresolved.log.dropEndOfRun = s.log.dropEndOfRun := by
  rw [reportUnresolved_eq]
  exact Log.dropEndOfRun_foldl_record (fun _ => rfl) _ _

/-- A run without a declaration since the last one only drops what that one said
    about its end. -/
theorem prepared_of_frozen {s : Session} (h : s.program.frozen = true) :
    s.prepared = { s with log := s.log.dropEndOfRun } := by
  rw [prepared, prepare, if_pos h]

/-- The session with its program frozen and every unit back at its start. -/
def startedOver (s : Session) : Session :=
  ({ s with program := s.program.freeze } : Session).reset

/-- A run of a program that changed starts over. -/
theorem prepared_of_not_frozen {s : Session} (h : s.program.frozen = false) :
    s.prepared = s.startedOver := by
  rw [prepared, prepare_of_not_frozen h]
  rfl

end Session

/-- The end of a run is dropped from its log as a whole. -/
theorem Progress.finish_dropEndOfRun (r : Progress) (bound : Nat) :
    (r.finish bound).log.dropEndOfRun = r.session.log.dropEndOfRun := by
  rw [finish, Session.reportUnresolved_dropEndOfRun]
  split
  · rfl
  · rw [Session.reportNonConvergence, Log.dropEndOfRun_recordRun _ rfl]

theorem Progress.finish_scope (r : Progress) (bound : Nat) :
    (r.finish bound).log.scope = r.session.log.scope := by
  have hkept : ∀ log : Log, log.dropEndOfRun.scope = log.scope := fun _ => rfl
  rw [← hkept, r.finish_dropEndOfRun, hkept]

/-- The next run goes on where the rounds of the last one ended. -/
theorem Progress.finish_prepared {r : Progress} (hfrozen : r.session.program.frozen = true)
    (hongoing : r.session.Ongoing) (bound : Nat) : (r.finish bound).prepared = r.session := by
  rw [Session.prepared_of_frozen (by rw [r.finish_program, hfrozen]), r.finish_dropEndOfRun,
    hongoing.dropEndOfRun, r.finish_eq]

namespace Session

/-- The session after a number of rounds, whether or not they change
    anything. -/
def afterRounds (s : Session) : Nat → Except Error Session
  | 0 => .ok s
  | n + 1 => do
    let w ← s.round
    w.session.afterRounds n

theorem afterRounds_succ {s : Session} {w : Sweep} (h : s.round = .ok w) (n : Nat) :
    s.afterRounds (n + 1) = w.session.afterRounds n := by
  rw [afterRounds, h]
  rfl

/-- Rounds do not fail, and they are a chain of steps. -/
theorem afterRounds_spec {s : Session} (hs : s.Current) (n : Nat) :
    ∃ t m, s.afterRounds n = .ok t ∧ Steps m s t := by
  induction n generalizing s with
  | zero => exact ⟨s, 0, rfl, .refl s⟩
  | succ n ih =>
      rcases round_spec hs with ⟨w, k, hw, hk, _⟩
      rcases ih (hk.current hs) with ⟨t, m, ht, hm⟩
      exact ⟨t, k + m, by rw [afterRounds_succ hw, ht], hk.trans hm⟩

/-- Rounds can be made in two parts. -/
theorem afterRounds_add {s t : Session} {m : Nat} (h : s.afterRounds m = .ok t) (n : Nat) :
    s.afterRounds (m + n) = t.afterRounds n := by
  induction m generalizing s with
  | zero =>
      rw [Nat.zero_add, Except.ok.inj h]
  | succ m ih =>
      rcases exists_of_bind_eq_ok h with ⟨w, hw, hrest⟩
      rw [Nat.succ_add, afterRounds_succ hw]
      exact ih hrest

/-- A round changes nothing. -/
def Quiet (s : Session) : Prop :=
  s.round = .ok { session := s }

/-- A round that reports no change has made none. -/
theorem quiet_of_unchanged {s : Session} (hs : s.Current) {w : Sweep} (hw : s.round = .ok w)
    (hquiet : w.changed = false) : s.Quiet ∧ w.session = s := by
  rcases round_spec hs with ⟨w', n, hw', hn, hflag, _⟩
  rw [Except.ok.inj (hw'.symm.trans hw)] at hn hflag
  -- The flag goes up with the first step, so there was none.
  rcases n with _ | n
  · rcases w with ⟨t, changed⟩
    cases hn
    rw [Quiet, hw]
    simp only [] at hquiet
    exact ⟨by rw [hquiet], rfl⟩
  · exact absurd (hflag.2 (Nat.succ_pos n)) (by simp [hquiet])

namespace Quiet

variable {s : Session} (h : s.Quiet)
include h

theorem afterRounds (n : Nat) : s.afterRounds n = .ok s := by
  induction n with
  | zero => rfl
  | succ n ih => rw [afterRounds_succ h, ih]

/-- A run of a quiet session makes one round and is done. -/
theorem iterate (bound : Nat) :
    s.iterate (bound + 1) = .ok { session := s, rounds := 1, converged := true } := by
  rw [iterate_succ h]
  rfl

end Quiet

/-- There is one place to become quiet at. -/
theorem Quiet.unique {s t t' : Session} {m n : Nat} (ht : t.Quiet) (ht' : t'.Quiet)
    (hm : s.afterRounds m = .ok t) (hn : s.afterRounds n = .ok t') : t = t' := by
  -- Whoever gets there first stays there.
  have hfirst := afterRounds_add hm n
  have hsecond := afterRounds_add hn m
  rw [ht.afterRounds] at hfirst
  rw [ht'.afterRounds, Nat.add_comm] at hsecond
  exact Except.ok.inj (hfirst.symm.trans hsecond)

/-- The rounds of a run are rounds, and a run that stops by itself is quiet at
    its end. -/
theorem iterate_afterRounds {s : Session} (hs : s.Current) {bound : Nat} {r : Progress}
    (h : s.iterate bound = .ok r) :
    s.afterRounds bound = .ok r.session ∧ (r.converged = true → r.session.Quiet) := by
  induction bound generalizing s r with
  | zero =>
      rw [← Except.ok.inj h]
      exact ⟨rfl, fun hc => absurd hc (by simp)⟩
  | succ bound ih =>
      rcases round_spec hs with ⟨w, n, hw, hn, _⟩
      rw [iterate_succ hw] at h
      by_cases hchanged : w.changed = true
      · rw [if_pos hchanged] at h
        rcases exists_of_map_eq_ok h with ⟨rest, hrest, rfl⟩
        rw [afterRounds_succ hw]
        exact ih (r := rest) (hn.current hs) hrest
      · rw [if_neg hchanged] at h
        rw [← Except.ok.inj h]
        rcases quiet_of_unchanged hs hw (by simpa using hchanged) with ⟨hquiet, hsame⟩
        -- The rounds that the run did not make would have changed nothing.
        simp only [hsame]
        exact ⟨hquiet.afterRounds (bound + 1), fun _ => hquiet⟩

/-- A run without a limit ends where a round changes nothing. -/
theorem run_quiet {s : Session} (hs : s.Lawful) (hmax : s.maxRounds = none) :
    ∃ (r : Progress) (n : Nat), s.prepared.afterRounds s.roundBound = .ok r.session ∧
      Steps n s.prepared r.session ∧ r.converged = true ∧ r.session.Quiet ∧
      s.run = .ok (r.finish s.roundBound,
        { rounds := r.rounds, converged := r.converged,
          counts := (r.finish s.roundBound).counts }) := by
  rcases run_spec hs with ⟨r, n, hr, hsteps, _, hrun⟩
  rcases run_converges hs (roundBound_default hmax).2 with ⟨_, _, hrun', hconverged, _⟩
  -- Both lemmas are about the one run there is.
  rw [(Prod.mk.inj (Except.ok.inj (hrun'.symm.trans hrun))).2] at hconverged
  rcases iterate_afterRounds (prepared_current hs) hr with ⟨hrounds, hquiet⟩
  exact ⟨r, n, hrounds, hsteps, hconverged, hquiet hconverged, hrun⟩

/-- One limited run after another, with what each of them reports. -/
def runLimited (s : Session) : List Nat → Except Error (Session × List RunSummary)
  | [] => .ok (s, [])
  | bound :: rest => do
    let (t, summary) ← (s.limitRounds bound).run
    let (last, summaries) ← t.runLimited rest
    return (last, summary :: summaries)

/-- How many rounds limited runs may make. -/
def allowance : List Nat → Nat
  | [] => 0
  | bound :: rest => max bound 1 + allowance rest

theorem limitRounds_prepared (s : Session) (n : Nat) :
    (s.limitRounds n).prepared = { s.prepared with maxRounds := some (max n 1) } := by
  by_cases h : s.program.frozen = true
  · rw [prepared_of_frozen h, prepared_of_frozen (s := s.limitRounds n) h]
    rfl
  · have hchanged : s.program.frozen = false := by simpa using h
    rw [prepared_of_not_frozen hchanged, prepared_of_not_frozen (s := s.limitRounds n) hchanged]
    rfl

theorem Beside.eq_of_log_eq {s t : Session} (h : s.Beside Eq t) :
    s = { t with maxRounds := s.maxRounds } := by
  cases h with
  | intro log maxRounds hlog =>
      subst hlog
      rfl

/-- The rounds of a run do not depend on the limit that the session has. -/
theorem iterate_withLimit {r : Session} {limit : Option Nat} {bound : Nat} {p : Progress}
    (hp : ({ r with maxRounds := limit } : Session).iterate bound = .ok p) :
    ∃ q, r.iterate bound = .ok q ∧ q.converged = p.converged ∧
      p.session = { q.session with maxRounds := p.session.maxRounds } := by
  have hbeside : Beside Eq { r with maxRounds := limit } r := ⟨r.log, r.maxRounds, rfl⟩
  rcases hbeside.iterate (fun _ _ d hlog => by rw [hlog]) bound hp with
    ⟨q, hq, hsame, _, hconverged⟩
  exact ⟨q, hq, hconverged, hsame.eq_of_log_eq⟩

/-- The session `t` after limited runs: it has made `n` rounds since `s` was
    started over, and they led to `r`. If one of the runs stopped by itself, the
    rounds had come to an end. -/
structure Resumed (s : Session) (n : Nat) (done : Prop) (r t : Session) : Prop where
  lawful : t.Lawful
  rounds : s.prepared.afterRounds n = .ok r
  prepared_eq : t.prepared = { r with maxRounds := t.maxRounds }
  tables : t.grades = r.grades ∧ t.floors = r.floors ∧ t.pending = r.pending
  finished : done → r.Quiet ∧ t.log = r.reportUnresolved.log

namespace Resumed

variable {s r t : Session} {n : Nat} {done : Prop}

theorem current (h : Resumed s n done r t) (hs : s.Lawful) : r.Current := by
  rcases afterRounds_spec (prepared_current hs) n with ⟨r', m, hr', hsteps⟩
  rw [Except.ok.inj (h.rounds.symm.trans hr')]
  exact hsteps.current (prepared_current hs)

/-- One more limited run makes that many rounds more. -/
theorem step (h : Resumed s n done r t) (hs : s.Lawful) (bound : Nat) :
    ∃ r' t' summary, (t.limitRounds bound).run = .ok (t', summary) ∧
      Resumed s (n + max bound 1) (done ∨ summary.converged = true) r' t' := by
  have hlawful := limitRounds_lawful h.lawful bound
  have hprepared : (t.limitRounds bound).prepared = { r with maxRounds := some (max bound 1) } := by
    rw [limitRounds_prepared, h.prepared_eq]
  rcases run_spec hlawful with ⟨p, m, hp, hsteps, _, hrun⟩
  have hcurrent := hsteps.current (prepared_current hlawful)
  have hongoing := hsteps.ongoing (t.limitRounds bound).prepared_ongoing
  -- The run goes through the rounds of `r`, with a limit of its own.
  rw [hprepared] at hp
  rcases iterate_withLimit hp with ⟨q, hq, hconverged, hsession⟩
  rcases iterate_afterRounds (h.current hs) hq with ⟨hrounds, hquiet⟩
  have hfinish := p.finish_eq (t.limitRounds bound).roundBound
  refine ⟨q.session, p.finish _, _, hrun, ?_, ?_, ?_, ?_, ?_⟩
  · have hlast := run_current hlawful hrun
    exact ⟨hlast.wellFormed, fun _ => hlast⟩
  · rw [afterRounds_add h.rounds]
    exact hrounds
  · rw [Progress.finish_prepared hcurrent.frozen hongoing, hfinish]
    exact hsession
  · rw [hfinish, hsession]
    exact ⟨rfl, rfl, rfl⟩
  · intro hdone
    have hstops : p.converged = true := by
      rcases hdone with hdone | hstops
      · -- Of a session that is quiet already, every run stops.
        have hone : max bound 1 = max bound 1 - 1 + 1 := by omega
        rw [show (t.limitRounds bound).roundBound = max bound 1 from rfl, hone,
          (h.finished hdone).1.iterate] at hq
        rw [← hconverged, ← Except.ok.inj hq]
      · exact hstops
    refine ⟨hquiet (hconverged.trans hstops), ?_⟩
    rw [Progress.finish, if_pos hstops, hsession]
    simp only [reportUnresolved_eq]
    rfl

/-- Limited runs make as many rounds as they may. -/
theorem runLimited (h : Resumed s n done r t) (hs : s.Lawful) (bounds : List Nat) :
    ∃ r' t' summaries, t.runLimited bounds = .ok (t', summaries) ∧
      Resumed s (n + allowance bounds) (done ∨ ∃ x ∈ summaries, x.converged = true) r' t' := by
  induction bounds generalizing n done r t with
  | nil =>
      refine ⟨r, t, [], rfl, ?_⟩
      simpa [allowance] using h
  | cons bound rest ih =>
      rcases h.step hs bound with ⟨r', t', summary, hrun, hstep⟩
      rcases ih hstep with ⟨r'', t'', summaries, hrest, hlast⟩
      refine ⟨r'', t'', summary :: summaries, ?_, ?_⟩
      · rw [Session.runLimited, hrun]
        change (t'.runLimited rest >>= _) = _
        rw [hrest]
        rfl
      · rw [allowance, ← Nat.add_assoc]
        simpa [or_assoc] using hlast

end Resumed

theorem Untouched.resumed {s : Session} (hs : s.Untouched) (hlawful : s.Lawful)
    (hfrozen : s.program.frozen = false) : Resumed s 0 False s.prepared s := by
  have hunits := freeze_units s.program
  refine ⟨hlawful, rfl, ?_, ?_, False.elim⟩
  · rw [← s.prepared_settings.2.2.2]
  · rw [prepared_of_not_frozen hfrozen, hs.grades, hs.floors, hs.pending, ← hunits]
    exact ⟨rfl, rfl, rfl⟩

/-- Limited runs add up. After any number of them, the tables of a session that
    was not run before are those after as many rounds from the start as the runs
    may make together, where every run may make at least one. The first round
    without a change is the last to matter. As soon as one of the runs stops by
    itself, the tables and the whole log are those after one run without a
    limit. -/
theorem limited_runs_resume (axis : Axis) (catalog : Catalog) (scope : List String)
    (ds : List Declaration) (bounds : List Nat) :
    let s := (start axis catalog scope).declareAll ds
    ∃ t summaries r once summary, s.runLimited bounds = .ok (t, summaries) ∧
      s.startedOver.afterRounds (allowance bounds) = .ok r ∧
      t.grades = r.grades ∧ t.floors = r.floors ∧ t.pending = r.pending ∧
      (∀ n q w, s.startedOver.afterRounds n = .ok q → q.round = .ok w → w.changed = false →
        ∀ m, s.startedOver.afterRounds (n + m) = .ok q) ∧
      s.run = .ok (once, summary) ∧
      ((∃ x ∈ summaries, x.converged = true) →
        t.grades = once.grades ∧ t.floors = once.floors ∧ t.pending = once.pending ∧
          t.log = once.log) := by
  intro s
  have hs : Declared axis catalog scope ds s := start_declareAll axis catalog scope ds
  have hcurrent := prepared_current hs.lawful
  have hstart := (declareAll_untouched axis catalog scope ds).resumed hs.lawful hs.frozen
  rcases hstart.runLimited hs.lawful bounds with ⟨r, t, summaries, hrun, h⟩
  rw [Nat.zero_add, false_or] at h
  rcases run_quiet hs.lawful hs.maxRounds_eq with ⟨p, _, hrounds, _, hstops, hquiet', hfull⟩
  rw [← prepared_of_not_frozen hs.frozen]
  refine ⟨t, summaries, r, _, _, hrun, h.rounds, h.tables.1, h.tables.2.1, h.tables.2.2, ?_,
    hfull, ?_⟩
  · intro n q w hq hw hchanged m
    rcases afterRounds_spec hcurrent n with ⟨q', k, hq', hsteps⟩
    rw [← Except.ok.inj (hq.symm.trans hq')] at hsteps
    rw [afterRounds_add hq]
    exact (quiet_of_unchanged (hsteps.current hcurrent) hw hchanged).1.afterRounds m
  · intro hdone
    rcases h.finished hdone with ⟨hquiet, hlog⟩
    -- The run without a limit is quiet at its end, too.
    have hsame := hquiet.unique hquiet' h.rounds hrounds
    rw [h.tables.1, h.tables.2.1, h.tables.2.2, hlog, p.finish_eq, hsame]
    refine ⟨rfl, rfl, rfl, ?_⟩
    rw [Progress.finish, if_pos hstops]

/-- Three units, each of which calls the next. -/
def callChain : List Declaration :=
  [.unit ((UnitDecl.method "a.A" "first").calling "a.A" "a.A.second()"),
    .unit ((UnitDecl.method "a.A" "second").calling "a.A" "a.A.third()"),
    .unit (UnitDecl.method "a.A" "third")]

/-- Two runs of a single round do not settle the chain, and a third run does. -/
theorem limited_runs_resume_callChain :
    let s := (start .purity {} []).declareAll callChain
    ∃ t summaries once summary, s.runLimited [0, 1, 2] = .ok (t, summaries) ∧
      summaries.map RunSummary.converged = [false, false, true] ∧ s.run = .ok (once, summary) ∧
      t.grades = once.grades ∧ t.floors = once.floors ∧ t.pending = once.pending ∧
      t.log = once.log := by
  intro s
  rcases limited_runs_resume .purity {} [] callChain [0, 1, 2] with
    ⟨t, summaries, _, once, summary, hlimited, _, _, _, _, _, honce, hsame⟩
  have hreports : (fun x => x.2.map RunSummary.converged) <$> s.runLimited [0, 1, 2] =
      .ok [false, false, true] := by decide +kernel
  rw [hlimited] at hreports
  have hreports : summaries.map RunSummary.converged = [false, false, true] :=
    Except.ok.inj hreports
  refine ⟨t, summaries, once, summary, hlimited, hreports, honce, hsame ?_⟩
  exact List.mem_map.1 (hreports ▸ by simp)

end Session

end CoreShell
