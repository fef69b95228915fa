import CoreShell.Proofs.Declaring
import CoreShell.Proofs.Rounds

/-!
# Histories of a Session

What can happen to a session over its life: declarations, a new limit on
rounds, and runs, in any order and any number. Whatever happened to a session,
its program is well formed, and as long as the program is frozen the tables
describe it. The tables of a session with new declarations may lag behind, but
the next run starts over from the catalogue and reads none of them.

So a run always begins with a current session and never fails.

## Main definitions

* `Operation`: What can happen to a session.
* `Session.performAll`: A whole history.
* `Session.Lawful`: What holds of a session at any time.
* `Session.Declared`: A session with declarations and nothing else.
* `Session.prepared`: A session at the start of its rounds.
* `Progress.finish`: A session at the end of its run.

## Theorems

* `prepared_current`: A run begins with a current session.
* `run_spec`: A run is a chain of steps and never fails.
* `run_current`: A session after a run is current.
* `performAll_induction`: No history fails, and every history ends lawful.
-/

namespace CoreShell

/-- What can happen to a session. -/
inductive Operation where
  | declare (declaration : Declaration)
  | limitRounds (n : Nat)
  | run
deriving DecidableEq

namespace Session

/-- The session after a declaration. -/
def declare (s : Session) : Declaration → Session
  | .type d => s.declareType d
  | .unit d => (s.submit d).1
  | .graph g => s.load g

/-- The session after one declaration after another. -/
def declareAll (s : Session) (ds : List Declaration) : Session :=
  ds.foldl declare s

/-- The session after an operation. -/
def perform (s : Session) : Operation → Except Error Session
  | .declare d => .ok (s.declare d)
  | .limitRounds n => .ok (s.limitRounds n)
  | .run => Prod.fst <$> s.run

/-- The session after a history. -/
def performAll (s : Session) (ops : List Operation) : Except Error Session :=
  ops.foldlM perform s

/-- The program is well formed, and if it is frozen, the tables describe it. -/
structure Lawful (s : Session) : Prop where
  wellFormed : s.program.WellFormed
  current : s.program.frozen = true → s.Current

theorem start_lawful (axis : Axis) (catalog : Catalog) (scope : List String) :
    (start axis catalog scope).Lawful :=
  ⟨Program.wellFormed_empty, fun hc => absurd hc (by simp [start])⟩

/-- What a session and a program keep when both are given a type or a unit,
    they keep under any declaration. -/
theorem declare_induction {P : Session → Program → Prop}
    (htype : ∀ s p d, P s p → P (s.declareType d) (p.declareType d).1)
    (hunit : ∀ s p d, P s p → P (s.submit d).1 (p.submit d).1) {s : Session} {p : Program}
    (h : P s p) (d : Declaration) : P (s.declare d) (p.declare d) := by
  cases d with
  | type t => exact htype s p t h
  | unit u => exact hunit s p u h
  | graph g =>
      have htypes := List.foldl_rel (l := g.types) h fun t _ s p => htype s p t
      exact List.foldl_rel htypes fun u _ s p => hunit s p u

theorem declare_lawful {s : Session} (hs : s.Lawful) (d : Declaration) : (s.declare d).Lawful := by
  -- A declaration unfreezes the program, so it owes nothing about the tables.
  refine declare_induction (P := fun s _ => s.Lawful) (fun s _ d hs => ?_) (fun s _ d hs => ?_)
    (p := s.program) hs d
  · exact ⟨Program.declareType_wellFormed hs.wellFormed d,
      fun hc => absurd hc (by simp [declareType, Program.declareType])⟩
  · exact ⟨Program.submit_wellFormed hs.wellFormed d,
      fun hc => absurd hc (by simp [submit, resetUnit, extendTables, Program.submit])⟩

/-- Declarations change no setting and leave the log alone. -/
theorem declare_settings (s : Session) (d : Declaration) :
    (s.declare d).axis = s.axis ∧ (s.declare d).catalog = s.catalog ∧
      (s.declare d).maxRounds = s.maxRounds ∧ (s.declare d).log = s.log :=
  declare_induction (P := fun t _ => t.axis = s.axis ∧ t.catalog = s.catalog ∧
    t.maxRounds = s.maxRounds ∧ t.log = s.log) (fun _ _ _ h => h) (fun _ _ _ h => h)
    (p := s.program) ⟨rfl, rfl, rfl, rfl⟩ d

/-- What a declaration does to the program of a session, it does to the program
    by itself. -/
theorem declare_program (s : Session) (d : Declaration) :
    (s.declare d).program = s.program.declare d := by
  refine declare_induction (P := fun s p => s.program = p) ?_ ?_ rfl d
  · rintro s _ t rfl
    rfl
  · rintro s _ u rfl
    rfl

/-- A session with declarations and nothing else in its history. -/
structure Declared (axis : Axis) (catalog : Catalog) (scope : List String)
    (ds : List Declaration) (s : Session) : Prop where
  lawful : s.Lawful
  frozen : s.program.frozen = false
  axis_eq : s.axis = axis
  catalog_eq : s.catalog = catalog
  maxRounds_eq : s.maxRounds = none
  scope_eq : s.log.scope = scope
  program_eq : s.program = ({} : Program).declareAll ds

theorem Declared.declare {axis : Axis} {catalog : Catalog} {scope : List String}
    {ds : List Declaration} {s : Session} (h : Declared axis catalog scope ds s) (d : Declaration) :
    Declared axis catalog scope (ds ++ [d]) (s.declare d) := by
  rcases s.declare_settings d with ⟨haxis, hcatalog, hmax, hlog⟩
  refine ⟨declare_lawful h.lawful d, ?_, haxis.trans h.axis_eq, hcatalog.trans h.catalog_eq,
    hmax.trans h.maxRounds_eq, ?_, ?_⟩
  · exact declare_induction (P := fun s _ => s.program.frozen = false) (fun _ _ _ _ => rfl)
      (fun _ _ _ _ => rfl) (p := s.program) h.frozen d
  · rw [hlog]
    exact h.scope_eq
  · rw [declare_program, h.program_eq, Program.declareAll, Program.declareAll, List.foldl_append]
    rfl

theorem start_declareAll (axis : Axis) (catalog : Catalog) (scope : List String)
    (ds : List Declaration) :
    Declared axis catalog scope ds ((start axis catalog scope).declareAll ds) := by
  -- The induction needs a session that has a history already.
  suffices h : ∀ (ds earlier : List Declaration) (s : Session),
      Declared axis catalog scope earlier s →
      Declared axis catalog scope (earlier ++ ds) (s.declareAll ds) from
    h ds [] _ ⟨start_lawful axis catalog scope, rfl, rfl, rfl, rfl, rfl, rfl⟩
  intro ds
  induction ds with
  | nil =>
      intro earlier s h
      rw [List.append_nil]
      exact h
  | cons d rest ih =>
      intro earlier s h
      have hrest := ih (earlier ++ [d]) (s.declare d) (h.declare d)
      rw [List.append_assoc] at hrest
      exact hrest

/-- The session at the start of its rounds. -/
def prepared (s : Session) : Session :=
  { s.prepare with log := s.prepare.log.dropEndOfRun }

theorem prepared_settings (s : Session) :
    s.prepared.axis = s.axis ∧ s.prepared.catalog = s.catalog ∧
      s.prepared.program = s.program.freeze ∧ s.prepared.maxRounds = s.maxRounds := by
  rw [prepared, prepare, Program.freeze]
  by_cases h : s.program.frozen = true
  · rw [if_pos h, if_pos h]
    exact ⟨rfl, rfl, rfl, rfl⟩
  · rw [if_neg h, if_neg h]
    exact ⟨rfl, rfl, rfl, rfl⟩

theorem freeze_units (p : Program) : p.freeze.units = p.units := by
  rw [Program.freeze]
  split <;> rfl

theorem prepared_roundBound (s : Session) : s.prepared.roundBound = s.roundBound := by
  rcases s.prepared_settings with ⟨_, _, hprogram, hmax⟩
  rw [roundBound, roundBound, hprogram, hmax, freeze_units]

/-- A run begins with a current session. -/
theorem prepared_current {s : Session} (hs : s.Lawful) : s.prepared.Current := by
  refine Current.withLog (s := s.prepare) ?_ _ _
  rw [prepare]
  by_cases h : s.program.frozen = true
  · -- Nothing was declared since the last run, and its tables are still right.
    rw [if_pos h]
    exact hs.current h
  · rw [if_neg h]
    refine reset_current (Program.freeze_wellFormed hs.wellFormed) ?_
    rw [Program.freeze, if_neg h]

/-- A run of a program that changed starts over from the catalogue. -/
theorem prepare_of_not_frozen {s : Session} (h : s.program.frozen = false) :
    s.prepare = ({ s with program := s.program.freeze } : Session).reset := by
  rw [prepare, if_neg (by simp [h])]

theorem prepared_gradeOf {s : Session} (h : s.program.frozen = false) {id : UnitId} {u : CodeUnit}
    (hu : s.program.freeze.units[id]? = some u) : s.prepared.gradeOf id = s.initialGrade u := by
  have hreset := reset_gradeOf (s := { s with program := s.program.freeze }) hu
  rw [← prepare_of_not_frozen h] at hreset
  exact hreset

theorem prepared_log {s : Session} (h : s.program.frozen = false) :
    s.prepared.log = s.log.clear := by
  rw [prepared, prepare_of_not_frozen h]
  rfl

/-- Explaining what is unsure only adds to the log. -/
theorem reportUnresolved_eq (s : Session) :
    s.reportUnresolved =
      { s with
        log := (s.unitsWith .unsure).foldl (fun log u => log.record
          { owner := s.program.typeName u.owner, unit := u.qualified, reason := .unresolved,
            message := s.explanation u }) s.log } := by
  -- The explanations are those of the session before any of them is recorded.
  suffices h : ∀ (us : List CodeUnit) (log : Log),
      us.foldl (fun t u => t.report u .unresolved (s.explanation u)) { s with log } =
      { s with
        log := us.foldl (fun log u => log.record
          { owner := s.program.typeName u.owner, unit := u.qualified, reason := .unresolved,
            message := s.explanation u }) log } from
    h (s.unitsWith .unsure) s.log
  intro us
  induction us with
  | nil => exact fun _ => rfl
  | cons u rest ih => exact fun log => ih _

end Session

/-- The session at the end of a run that made the given progress. -/
def Progress.finish (r : Progress) (bound : Nat) : Session :=
  (if r.converged then r.session else r.session.reportNonConvergence bound).reportUnresolved

/-- The end of a run only adds to the log. -/
theorem Progress.finish_eq (r : Progress) (bound : Nat) :
    r.finish bound = { r.session with log := (r.finish bound).log } := by
  rw [finish, Session.reportUnresolved_eq]
  cases r.converged <;> rfl

@[simp]
theorem Progress.finish_program (r : Progress) (bound : Nat) :
    (r.finish bound).program = r.session.program := by
  rw [finish_eq]

@[simp]
theorem Progress.finish_pending (r : Progress) (bound : Nat) :
    (r.finish bound).pending = r.session.pending := by
  rw [finish_eq]

@[simp]
theorem Progress.finish_gradeOf (r : Progress) (bound : Nat) (id : UnitId) :
    (r.finish bound).gradeOf id = r.session.gradeOf id := by
  rw [finish_eq]
  rfl

@[simp]
theorem Progress.finish_counts (r : Progress) (bound : Nat) :
    (r.finish bound).counts = r.session.counts := by
  rw [finish_eq]
  rfl

namespace Session

/-- A run is a chain of steps and never fails. If it stops by itself, nothing
    is left to do. -/
theorem run_spec {s : Session} (hs : s.Lawful) :
    ∃ r n, s.prepared.iterate s.roundBound = .ok r ∧ Steps n s.prepared r.session ∧
      (r.converged = true → r.session.Stable) ∧
      s.run = .ok (r.finish s.roundBound,
        { rounds := r.rounds, converged := r.converged,
          counts := (r.finish s.roundBound).counts }) := by
  rcases iterate_spec (prepared_current hs) s.roundBound with ⟨r, n, hr, hsteps, hstable⟩
  refine ⟨r, n, hr, hsteps, hstable, ?_⟩
  have hbound := s.prepared_roundBound
  rw [← hbound] at hr ⊢
  change (s.prepared.iterate s.prepared.roundBound >>= _) = _
  rw [hr]
  rfl

theorem run_finish {s t : Session} {summary : RunSummary} (hs : s.Lawful)
    (h : s.run = .ok (t, summary)) :
    ∃ (r : Progress) (n : Nat), Steps n s.prepared r.session ∧ t = r.finish s.roundBound := by
  rcases run_spec hs with ⟨r, n, _, hsteps, _, hrun⟩
  exact ⟨r, n, hsteps, (Prod.mk.inj (Except.ok.inj (h.symm.trans hrun))).1⟩

/-- A session after a run is current. -/
theorem run_current {s t : Session} {summary : RunSummary} (hs : s.Lawful)
    (h : s.run = .ok (t, summary)) : t.Current := by
  rcases run_finish hs h with ⟨r, n, hsteps, ht⟩
  rw [ht, r.finish_eq]
  exact (hsteps.current (prepared_current hs)).withLog _ _

theorem limitRounds_lawful {s : Session} (hs : s.Lawful) (n : Nat) : (s.limitRounds n).Lawful :=
  ⟨hs.wellFormed, fun hfrozen => (hs.current hfrozen).withLog _ _⟩

/-- An operation does not fail and keeps a session lawful. -/
theorem perform_lawful {s : Session} (hs : s.Lawful) (op : Operation) :
    ∃ t, s.perform op = .ok t ∧ t.Lawful := by
  cases op with
  | declare d => exact ⟨_, rfl, declare_lawful hs d⟩
  | limitRounds n => exact ⟨_, rfl, limitRounds_lawful hs n⟩
  | run =>
      rcases run_spec hs with ⟨r, _, _, _, _, hrun⟩
      have hcurrent := run_current hs hrun
      refine ⟨_, by rw [perform, hrun]; rfl, hcurrent.wellFormed, fun _ => hcurrent⟩

/-- No history fails. Every history ends lawful, with whatever all operations
    keep. -/
theorem performAll_induction {P : Session → Prop} {s : Session} (hs : s.Lawful) (h : P s)
    (hstep : ∀ (s t : Session) (op : Operation), s.Lawful → P s → s.perform op = .ok t → P t)
    (ops : List Operation) : ∃ t, s.performAll ops = .ok t ∧ t.Lawful ∧ P t := by
  induction ops generalizing s with
  | nil => exact ⟨s, rfl, hs, h⟩
  | cons op rest ih =>
      rcases perform_lawful hs op with ⟨r, hr, hlawful⟩
      rcases ih hlawful (hstep s r op hs h hr) with ⟨t, ht, hlast⟩
      refine ⟨t, ?_, hlast⟩
      rw [performAll, List.foldlM_cons, hr]
      exact ht

/-- The session that a history ends with has whatever all operations keep. -/
theorem performAll_kept {P : Session → Prop} {s t : Session} (hs : s.Lawful) (h : P s)
    (hstep : ∀ (s t : Session) (op : Operation), s.Lawful → P s → s.perform op = .ok t → P t)
    {ops : List Operation} (hperform : s.performAll ops = .ok t) : t.Lawful ∧ P t := by
  rcases performAll_induction hs h hstep ops with ⟨t', hperform', hkept⟩
  rw [Except.ok.inj (hperform.symm.trans hperform')]
  exact hkept

end Session

end CoreShell
