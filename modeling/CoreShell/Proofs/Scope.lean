import CoreShell.Proofs.Endings
import Mathlib.Data.List.Forall2

/-!
# A Scope Only Filters

A session with a scope reports on some owners and is silent about the others. What
it finds out does not depend on that. It goes through the same states as a session
without a scope, and its log is what the scope leaves of the other log.

To see this one need not follow a run again. Rounds do not read the log, so two
sessions that differ in their logs go through them side by side. While rounds are
made no record is about the run as a whole, so each record passes a scope exactly
if its owner is in scope. Only at the end of a run there may be one that passes
every scope, and the next run begins by dropping it.

## Main definitions

* `Diagnostic.passes`: What a scope leaves of a log.
* `Session.narrowed`: A session with a scope in place of an empty one.
* `Session.chronicle`: The sessions and the summaries along a history.

## Theorems

* `prepared_narrowed`, `finish_narrowed`: The beginning and the end of a run.
* `run_narrowed`: A run does the same with a scope.
* `perform_narrowed`: So does every operation.
* `scope_only_filters`: So does every history, at every step.
-/

namespace CoreShell

/-- A record passes a scope if it is about a run or if its owner is in scope. All
    records pass an empty scope. -/
def Diagnostic.passes (scope : List String) (d : Diagnostic) : Bool :=
  d.reason.isRunLevel || scope.isEmpty || Text.startsWithAny scope d.owner

theorem Diagnostic.passes_of_unitLevel (scope : List String) {d : Diagnostic}
    (h : d.reason.isRunLevel = false) :
    d.passes scope = (scope.isEmpty || Text.startsWithAny scope d.owner) := by
  rw [passes, h, Bool.false_or]

/-- The second log has a scope, and of the first one what is in scope. -/
structure Log.Narrows (scope : List String) (l l' : Log) : Prop where
  open_scope : l.scope = []
  scope_eq : l'.scope = scope
  entries_eq : l'.entries = l.entries.filter fun d =>
    scope.isEmpty || Text.startsWithAny scope d.owner

theorem Log.Narrows.record {scope : List String} {l l' : Log} (h : l.Narrows scope l')
    (d : Diagnostic) : (l.record d).Narrows scope (l'.record d) := by
  refine ⟨by rw [record_scope, h.open_scope], by rw [record_scope, h.scope_eq], ?_⟩
  have hopen : l.inScope d.owner = true := by
    rw [inScope, h.open_scope]
    rfl
  rw [record_entries, record_entries, if_pos hopen, List.filter_append, h.entries_eq, inScope,
    h.scope_eq, List.filter_singleton]
  by_cases hd : (scope.isEmpty || Text.startsWithAny scope d.owner) = true
  · rw [if_pos hd, hd]
    rfl
  · rw [if_neg hd, Bool.eq_false_iff.2 hd]
    rfl

namespace Session

/-- The session with a scope, and with what the scope leaves of its log. -/
def narrowed (s : Session) (scope : List String) : Session :=
  { s with log := { scope, entries := s.log.entries.filter (Diagnostic.passes scope) } }

variable (scope : List String)

theorem declare_narrowed (s : Session) (d : Declaration) :
    (s.narrowed scope).declare d = (s.declare d).narrowed scope := by
  cases d with
  | type d => rfl
  | unit d => rfl
  | graph g =>
      have htypes : g.types.foldl declareType (s.narrowed scope) =
          (g.types.foldl declareType s).narrowed scope :=
        List.foldl_hom (narrowed · scope) fun _ _ => rfl
      rw [declare, load, htypes]
      exact List.foldl_hom (narrowed · scope) fun _ _ => rfl

theorem prepared_narrowed (s : Session) :
    (s.narrowed scope).prepared = s.prepared.narrowed scope := by
  by_cases h : s.program.frozen = true
  · rw [prepared_of_frozen h, prepared_of_frozen (s := s.narrowed scope) h]
    simp only [narrowed, Log.dropEndOfRun, List.filter_filter, Bool.and_comm]
  · have hchanged : s.program.frozen = false := by simpa using h
    rw [prepared_of_not_frozen hchanged,
      prepared_of_not_frozen (s := s.narrowed scope) hchanged]
    rfl

theorem Ongoing.filter_passes {s : Session} (h : s.Ongoing) :
    s.log.entries.filter (Diagnostic.passes scope) =
      s.log.entries.filter fun d => scope.isEmpty || Text.startsWithAny scope d.owner :=
  List.filter_congr fun d hd =>
    Diagnostic.passes_of_unitLevel scope (Reason.isRunLevel_of_isEndOfRun (h d hd))

theorem Beside.eq_narrowed {scope : List String} {r r' : Session}
    (h : r.Beside (Log.Narrows scope) r') (hongoing : r.Ongoing)
    (hlimit : r'.maxRounds = r.maxRounds) : r' = r.narrowed scope := by
  cases h with
  | intro log maxRounds hlog =>
      have hfiltered : log =
          { scope, entries := r.log.entries.filter (Diagnostic.passes scope) } := by
        rw [hongoing.filter_passes, ← hlog.entries_eq, ← hlog.scope_eq]
      rw [hfiltered, show maxRounds = r.maxRounds from hlimit]
      rfl

/-- Rounds do the same with a scope. -/
theorem iterate_narrowed {s : Session} (hs : s.Current) (hopen : s.log.scope = [])
    (hongoing : s.Ongoing) {bound : Nat} {r : Progress} (hr : s.iterate bound = .ok r) :
    (s.narrowed scope).iterate bound = .ok { r with session := r.session.narrowed scope } := by
  have hbeside : s.Beside (Log.Narrows scope) (s.narrowed scope) :=
    ⟨_, _, hopen, rfl, hongoing.filter_passes scope⟩
  rcases hbeside.iterate (fun _ _ d hlog => hlog.record d) bound hr with
    ⟨r', hr', hsession, hrounds, hconverged⟩
  rcases iterate_spec hs bound with ⟨_, n, hr₁, hsteps, _⟩
  rcases iterate_spec (hs.withLog (s.narrowed scope).log s.maxRounds) bound with
    ⟨_, n', hr₂, hsteps', _⟩
  rw [← Except.ok.inj (hr.symm.trans hr₁)] at hsteps
  rw [← Except.ok.inj (hr'.symm.trans hr₂)] at hsteps'
  -- Sessions side by side may have limits of their own. These two do not.
  have hsame := hsession.eq_narrowed (hsteps.ongoing hongoing)
    (hsteps'.maxRounds_eq.trans hsteps.maxRounds_eq.symm)
  rcases r' with ⟨t, rounds, converged⟩
  rw [hr', show t = _ from hsame, show rounds = _ from hrounds,
    show converged = _ from hconverged]

/-- What is said at the end of a run passes if it is about the run or in scope. -/
theorem openEntries_narrowed {s : Session} (hopen : s.log.scope = []) :
    (s.narrowed scope).openEntries = s.openEntries.filter (Diagnostic.passes scope) := by
  have hall : ∀ u ∈ s.unitsWith .unsure, s.log.inScope (s.program.typeName u.owner) = true := by
    intro u _
    rw [Log.inScope, hopen]
    rfl
  rw [openEntries, openEntries, List.filter_map, List.filter_eq_self.2 hall]
  rfl

end Session

theorem Progress.finish_narrowed (scope : List String) {r : Progress}
    (hopen : r.session.log.scope = []) (bound : Nat) :
    ({ r with session := r.session.narrowed scope } : Progress).finish bound =
      (r.finish bound).narrowed scope := by
  have hrun : (r.runEntries bound).filter (Diagnostic.passes scope) = r.runEntries bound := by
    refine List.filter_eq_self.2 fun d hd => ?_
    rw [Diagnostic.passes, r.runEntries_runLevel bound d hd]
    rfl
  generalize hq : ({ r with session := r.session.narrowed scope } : Progress) = q
  have hsession : q.session = r.session.narrowed scope := by rw [← hq]
  have hentries : (q.finish bound).log.entries =
      (r.finish bound).log.entries.filter (Diagnostic.passes scope) := by
    rw [q.finish_entries, r.finish_entries, List.filter_append, List.filter_append, hrun,
      ← Session.openEntries_narrowed scope hopen, hsession, ← hq]
    rfl
  have hscope : (q.finish bound).log.scope = scope := by
    rw [q.finish_scope, hsession]
    rfl
  have hlog : (q.finish bound).log =
      { scope, entries := (r.finish bound).log.entries.filter (Diagnostic.passes scope) } := by
    rw [← hentries, ← hscope]
  -- Apart from the log, the end of a run is the end of its rounds.
  rw [q.finish_eq, r.finish_eq, hlog, hsession]
  rfl

namespace Session

/-- A run does the same with a scope. -/
theorem run_narrowed (scope : List String) {s : Session} (hs : s.Lawful)
    (hopen : s.log.scope = []) :
    ∃ t summary, s.run = .ok (t, summary) ∧ t.log.scope = [] ∧
      (s.narrowed scope).run = .ok (t.narrowed scope, summary) := by
  have hs' : (s.narrowed scope).Lawful :=
    ⟨hs.wellFormed, fun hfrozen => (hs.current hfrozen).withLog _ _⟩
  have hbegin : s.prepared.log.scope = [] := by rw [prepared_scope, hopen]
  rcases run_spec hs with ⟨r, n, hr, hsteps, _, hrun⟩
  rcases run_spec hs' with ⟨r', _, hr', _, _, hrun'⟩
  have hend : r.session.log.scope = [] := by rw [hsteps.scope_eq, hbegin]
  rw [prepared_narrowed] at hr'
  have hrounds := iterate_narrowed scope (prepared_current hs) hbegin s.prepared_ongoing hr
  have hsame : r' = { r with session := r.session.narrowed scope } :=
    Except.ok.inj (hr'.symm.trans hrounds)
  refine ⟨_, _, hrun, by rw [r.finish_scope, hend], ?_⟩
  rw [hrun', hsame, show (s.narrowed scope).roundBound = s.roundBound from rfl,
    Progress.finish_narrowed scope hend]
  rfl

/-- So does every operation. -/
theorem perform_narrowed (scope : List String) {s : Session} (hs : s.Lawful)
    (hopen : s.log.scope = []) (op : Operation) :
    ∃ t, s.perform op = .ok t ∧ t.log.scope = [] ∧
      (s.narrowed scope).perform op = .ok (t.narrowed scope) := by
  cases op with
  | declare d =>
      refine ⟨_, rfl, ?_, congrArg Except.ok (declare_narrowed scope s d)⟩
      rw [(s.declare_settings d).2.2.2, hopen]
  | limitRounds n => exact ⟨_, rfl, hopen, rfl⟩
  | run =>
      rcases run_narrowed scope hs hopen with ⟨t, summary, hrun, hlast, hrun'⟩
      exact ⟨t, by rw [perform, hrun]; rfl, hlast, by rw [perform, hrun']; rfl⟩

/-- What an operation reports about itself, if it is a run. -/
def summaryOf (s : Session) : Operation → Option RunSummary
  | .run => (Prod.snd <$> s.run).toOption
  | _ => none

/-- The sessions along a history, one for every operation, with the summaries of the
    runs among them. -/
def chronicle (s : Session) : List Operation → Except Error (List (Session × Option RunSummary))
  | [] => .ok []
  | op :: rest => do
    let t ← s.perform op
    let later ← t.chronicle rest
    return (t, s.summaryOf op) :: later

theorem summaryOf_narrowed (scope : List String) {s : Session} (hs : s.Lawful)
    (hopen : s.log.scope = []) (op : Operation) :
    (s.narrowed scope).summaryOf op = s.summaryOf op := by
  cases op with
  | declare d => rfl
  | limitRounds n => rfl
  | run =>
      rcases run_narrowed scope hs hopen with ⟨t, summary, hrun, _, hrun'⟩
      rw [summaryOf, summaryOf, hrun, hrun']
      rfl

theorem chronicle_narrowed (scope : List String) {s : Session} (hs : s.Lawful)
    (hopen : s.log.scope = []) (ops : List Operation) :
    ∃ visited, s.chronicle ops = .ok visited ∧ visited.length = ops.length ∧
      (s.narrowed scope).chronicle ops =
        .ok (visited.map fun x => (x.1.narrowed scope, x.2)) := by
  induction ops generalizing s with
  | nil => exact ⟨[], rfl, rfl, rfl⟩
  | cons op rest ih =>
      rcases perform_narrowed scope hs hopen op with ⟨t, ht, hlast, ht'⟩
      rcases perform_lawful hs op with ⟨t₁, ht₁, hlawful⟩
      rw [← Except.ok.inj (ht.symm.trans ht₁)] at hlawful
      rcases ih hlawful hlast with ⟨later, hlater, hlength, hlater'⟩
      refine ⟨(t, s.summaryOf op) :: later, ?_, congrArg (· + 1) hlength, ?_⟩
      · rw [chronicle, ht]
        change (t.chronicle rest >>= _) = _
        rw [hlater]
        rfl
      · rw [chronicle, ht', summaryOf_narrowed scope hs hopen]
        change ((t.narrowed scope).chronicle rest >>= _) = _
        rw [hlater']
        rfl

/-- A scope only filters. Take a session without a scope and one with a scope through
    the same history of declarations, limits and runs. No operation fails. After every
    one of them both have the same program, grades, floors and pending units, every run
    reports the same about itself, and the log of the second session has those records
    of the first, in their order, that are about a run or whose owner is in scope. -/
theorem scope_only_filters (axis : Axis) (catalog : Catalog) (scope : List String)
    (ops : List Operation) :
    ∃ visited visited', (start axis catalog []).chronicle ops = .ok visited ∧
      (start axis catalog scope).chronicle ops = .ok visited' ∧ visited.length = ops.length ∧
      List.Forall₂ (fun x x' => x'.1.program = x.1.program ∧ x'.1.grades = x.1.grades ∧
        x'.1.floors = x.1.floors ∧ x'.1.pending = x.1.pending ∧ x'.2 = x.2 ∧
        x'.1.log.entries = x.1.log.entries.filter (Diagnostic.passes scope)) visited visited' := by
  have hlawful := start_lawful axis catalog []
  rcases chronicle_narrowed scope hlawful rfl ops with ⟨visited, hvisited, hlength, hnarrowed⟩
  refine ⟨visited, _, hvisited, hnarrowed, hlength, ?_⟩
  rw [List.forall₂_map_right_iff, List.forall₂_same]
  exact fun _ _ => ⟨rfl, rfl, rfl, rfl, rfl, rfl⟩

/-- Two units that fail, and one that calls the second of them, in a run that is cut
    short. -/
def twoLogs : List Operation :=
  [.declare (.unit (UnitDecl.method "a.Log" "write").asNative),
    .declare (.unit (UnitDecl.method "b.Log" "write").asNative),
    .declare (.unit ((UnitDecl.method "b.Main" "main").calling "b.Log" "b.Log.write()")),
    .limitRounds 1, .run]

/-- The scope leaves the record of the first unit and the one about the run. -/
theorem scope_only_filters_twoLogs :
    ∃ visited visited', (start .purity {} []).chronicle twoLogs = .ok visited ∧
      (start .purity {} ["a."]).chronicle twoLogs = .ok visited' ∧
      List.Forall₂ (fun x x' => x'.1.grades = x.1.grades ∧ x'.2 = x.2) visited visited' ∧
      (∃ x ∈ visited.getLast?, x.1.log.entries.map Diagnostic.key =
        [("a.Log", "a.Log.write()", .opaqueOperation), ("b.Log", "b.Log.write()", .opaqueOperation),
          ("b.Main", "b.Main.main()", .impureCall), ("", "", .nonConvergence)]) ∧
      ∃ x ∈ visited'.getLast?, x.1.log.entries.map Diagnostic.key =
        [("a.Log", "a.Log.write()", .opaqueOperation), ("", "", .nonConvergence)] := by
  rcases scope_only_filters .purity {} ["a."] twoLogs with
    ⟨visited, visited', hvisited, hvisited', _, hsame⟩
  have hcheck : (fun l => l.getLast?.map fun x => x.1.log.entries.map Diagnostic.key) <$>
      (start .purity {} []).chronicle twoLogs = .ok (some
        [("a.Log", "a.Log.write()", .opaqueOperation), ("b.Log", "b.Log.write()", .opaqueOperation),
          ("b.Main", "b.Main.main()", .impureCall), ("", "", .nonConvergence)]) := by
    decide +kernel
  have hcheck' : (fun l => l.getLast?.map fun x => x.1.log.entries.map Diagnostic.key) <$>
      (start .purity {} ["a."]).chronicle twoLogs = .ok (some
        [("a.Log", "a.Log.write()", .opaqueOperation), ("", "", .nonConvergence)]) := by
    decide +kernel
  rw [hvisited] at hcheck
  rw [hvisited'] at hcheck'
  refine ⟨visited, visited', hvisited, hvisited', ?_, ?_, ?_⟩
  · exact hsame.imp fun _ _ h => ⟨h.2.1, h.2.2.2.2.1⟩
  · exact Option.map_eq_some_iff.1 (Except.ok.inj hcheck)
  · exact Option.map_eq_some_iff.1 (Except.ok.inj hcheck')

end Session

end CoreShell
