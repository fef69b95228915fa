import CoreShell.Proofs.Rounds

/-!
# Sessions Side by Side

Rounds write to the log and never read it, and they do not look at the limit on
rounds at all. So two sessions that differ in nothing else go through their
rounds side by side: every rule does the same to both, and they stop together.

What is said of the two logs is a parameter. It may be any relation that
survives the recording of one and the same diagnostic in both.

## Main definitions

* `Session.Beside`: Two sessions that differ in their logs and limits only.
* `Sweep.Beside`: The same in the middle of a round.

## Theorems

* `exists_of_bind_eq_ok`, `exists_of_map_eq_ok`: What succeeds has parts that
  succeed.
* `Beside.judgeLocally`, `Beside.propagate`, `Beside.resolve`: A rule does the
  same to both sessions.
* `Beside.round`: So does a round.
* `Beside.iterate`: Both sessions stop after the same number of rounds.
-/

namespace CoreShell

section Except

variable {ε α β : Type}

/-- What succeeds in two parts has a first part that succeeds. -/
theorem exists_of_bind_eq_ok {x : Except ε α} {f : α → Except ε β} {b : β}
    (h : x >>= f = .ok b) : ∃ a, x = .ok a ∧ f a = .ok b := by
  cases x with
  | error e => exact absurd h (by simp [bind, Except.bind])
  | ok a => exact ⟨a, rfl, h⟩

theorem exists_of_map_eq_ok {x : Except ε α} {f : α → β} {b : β} (h : f <$> x = .ok b) :
    ∃ a, x = .ok a ∧ f a = b := by
  cases x with
  | error e => exact absurd h (by simp)
  | ok a => exact ⟨a, rfl, Except.ok.inj h⟩

end Except

namespace Session

/-- The second session differs from the first in its log and its limit on
    rounds only, and the two logs are related. -/
inductive Beside (P : Log → Log → Prop) (s : Session) : Session → Prop
  | intro (log : Log) (maxRounds : Option Nat) (related : P s.log log) :
      Beside P s { s with log, maxRounds }

namespace Beside

variable {P : Log → Log → Prop} {s t : Session} (h : s.Beside P t)
include h

theorem gradeOf_eq : t.gradeOf = s.gradeOf := by
  cases h
  rfl

theorem pending_eq : t.pending = s.pending := by
  cases h
  rfl

theorem program_eq : t.program = s.program := by
  cases h
  rfl

end Beside

end Session

/-- Two sweeps that are equally far, with sessions side by side. -/
structure Sweep.Beside (P : Log → Log → Prop) (w w' : Sweep) : Prop where
  session : w.session.Beside P w'.session
  changed : w'.changed = w.changed

section Rules

variable {P : Log → Log → Prop} (hP : ∀ l l' d, P l l' → P (l.record d) (l'.record d))
include hP

namespace Session.Beside

variable {s t : Session}

theorem judgeLocally (h : s.Beside P t) (u : CodeUnit) :
    (s.judgeLocally u).Beside P (t.judgeLocally u) := by
  cases h with
  | intro log maxRounds hlog =>
      simp only [Session.judgeLocally]
      split
      · exact ⟨_, _, hP _ _ _ hlog⟩
      · exact ⟨_, _, hlog⟩
      · split
        · exact ⟨_, _, hlog⟩
        · exact ⟨_, _, hlog⟩

theorem propagate (h : s.Beside P t) (u : CodeUnit) {w : Sweep} (hw : s.propagate u = .ok w) :
    ∃ w', t.propagate u = .ok w' ∧ w.Beside P w' := by
  cases h with
  | intro log maxRounds hlog =>
      simp only [Session.propagate] at hw
      simp only [Session.propagate]
      -- The second session is looked at where the first one is.
      change ∃ w', (if s.gradeOf u.id ≠ .unsure then _ else _) = Except.ok w' ∧ _
      by_cases hunsure : s.gradeOf u.id ≠ .unsure
      · rw [if_pos hunsure] at hw
        exact absurd hw (by simp)
      · rw [if_neg hunsure] at hw ⊢
        rcases hfloor : s.floors.getD u.id none with _ | floor
        · simp only [hfloor] at hw
          exact absurd hw (by simp)
        · simp only [hfloor] at hw ⊢
          rcases heval : s.program.evaluateCalls s.grades floor u with _ | via | g
          · simp only [heval] at hw ⊢
            rw [← Except.ok.inj hw]
            exact ⟨_, rfl, ⟨_, _, hlog⟩, rfl⟩
          · simp only [heval] at hw ⊢
            rw [← Except.ok.inj hw]
            exact ⟨_, rfl, ⟨_, _, hP _ _ _ hlog⟩, rfl⟩
          · simp only [heval] at hw ⊢
            rw [← Except.ok.inj hw]
            exact ⟨_, rfl, ⟨_, _, hlog⟩, rfl⟩

theorem resolve (h : s.Beside P t) (u : CodeUnit) : (s.resolve u).Beside P (t.resolve u) := by
  cases h with
  | intro log maxRounds hlog =>
      simp only [Session.resolve]
      split
      · exact ⟨⟨_, _, hlog⟩, rfl⟩
      · exact ⟨⟨_, _, hlog⟩, rfl⟩
      · exact ⟨⟨_, _, hP _ _ _ hlog⟩, rfl⟩

end Session.Beside

namespace Sweep.Beside

variable {w w' : Sweep}

theorem judgeLocally (h : w.Beside P w') (u : CodeUnit) :
    (w.judgeLocally u).Beside P (w'.judgeLocally u) := by
  rw [Sweep.judgeLocally, Sweep.judgeLocally, h.session.gradeOf_eq]
  split
  · exact ⟨h.session.judgeLocally hP u, rfl⟩
  · exact h

theorem propagate (h : w.Beside P w') (u : CodeUnit) {v : Sweep} (hv : w.propagate u = .ok v) :
    ∃ v', w'.propagate u = .ok v' ∧ v.Beside P v' := by
  rw [Sweep.propagate, h.session.gradeOf_eq, h.session.pending_eq]
  rw [Sweep.propagate] at hv
  by_cases hwaits : w.session.gradeOf u.id = .unsure ∧ u.id ∉ w.session.pending
  · rw [if_pos hwaits] at hv ⊢
    rcases exists_of_map_eq_ok hv with ⟨r, hrule, rfl⟩
    rcases h.session.propagate hP u hrule with ⟨r', hrule', hbeside⟩
    refine ⟨w'.andThen r', by rw [hrule']; rfl, hbeside.session, ?_⟩
    simp only [andThen, h.changed, hbeside.changed]
  · rw [if_neg hwaits] at hv ⊢
    rw [← Except.ok.inj hv]
    exact ⟨_, rfl, h⟩

theorem resolve (h : w.Beside P w') (id : UnitId) : (w.resolve id).Beside P (w'.resolve id) := by
  rw [Sweep.resolve, Sweep.resolve, h.session.program_eq]
  rcases w.session.program.units[id]? with _ | u
  · exact h
  · have hbeside := h.session.resolve hP u
    exact ⟨hbeside.session, by simp only [andThen, h.changed, hbeside.changed]⟩

theorem locals (h : w.Beside P w') : w.locals.Beside P w'.locals := by
  rw [Sweep.locals, Sweep.locals, h.session.program_eq]
  exact List.foldl_rel h fun u _ _ _ h => h.judgeLocally hP u

theorem calls (h : w.Beside P w') {v : Sweep} (hv : w.calls = .ok v) :
    ∃ v', w'.calls = .ok v' ∧ v.Beside P v' := by
  rw [Sweep.calls, h.session.program_eq]
  rw [Sweep.calls] at hv
  generalize w.session.program.units.toList = us at hv ⊢
  -- The pass stops at a failing rule, so it is followed along the list.
  induction us generalizing w w' with
  | nil =>
      rw [← Except.ok.inj hv]
      exact ⟨_, rfl, h⟩
  | cons u rest ih =>
      rw [List.foldlM_cons] at hv ⊢
      rcases exists_of_bind_eq_ok hv with ⟨r, hrule, hrest⟩
      rcases h.propagate hP u hrule with ⟨r', hrule', hbeside⟩
      rw [hrule']
      exact ih hbeside hrest

theorem dispatches (h : w.Beside P w') : w.dispatches.Beside P w'.dispatches := by
  rw [Sweep.dispatches, Sweep.dispatches, h.session.pending_eq]
  exact List.foldl_rel h fun id _ _ _ h => h.resolve hP id

end Sweep.Beside

namespace Session.Beside

variable {s t : Session}

/-- A round does the same to both sessions. -/
theorem round (h : s.Beside P t) {w : Sweep} (hw : s.round = .ok w) :
    ∃ w', t.round = .ok w' ∧ w.Beside P w' := by
  have hstart : Sweep.Beside P { session := s } { session := t } := ⟨h, rfl⟩
  rcases exists_of_bind_eq_ok hw with ⟨v, hcalls, hlast⟩
  rcases (hstart.locals hP).calls hP hcalls with ⟨v', hcalls', hbeside⟩
  refine ⟨v'.dispatches, by rw [Session.round, hcalls']; rfl, ?_⟩
  rw [← Except.ok.inj hlast]
  exact hbeside.dispatches hP

/-- Both sessions stop after the same number of rounds. -/
theorem iterate (h : s.Beside P t) (bound : Nat) {r : Progress} (hr : s.iterate bound = .ok r) :
    ∃ r', t.iterate bound = .ok r' ∧ r.session.Beside P r'.session ∧ r'.rounds = r.rounds ∧
      r'.converged = r.converged := by
  induction bound generalizing s t r with
  | zero =>
      rw [← Except.ok.inj hr]
      exact ⟨_, rfl, h, rfl, rfl⟩
  | succ bound ih =>
      rcases exists_of_bind_eq_ok hr with ⟨w, hround, _⟩
      rcases h.round hP hround with ⟨w', hround', hbeside⟩
      rw [iterate_succ hround] at hr
      rw [iterate_succ hround', hbeside.changed]
      by_cases hchanged : w.changed = true
      · rw [if_pos hchanged] at hr ⊢
        rcases exists_of_map_eq_ok hr with ⟨rest, hrest, rfl⟩
        rcases ih hbeside.session hrest with ⟨rest', hrest', hlast, hrounds, hconverged⟩
        rw [hrest']
        exact ⟨_, rfl, hlast, by simp only [hrounds], hconverged⟩
      · rw [if_neg hchanged] at hr ⊢
        rw [← Except.ok.inj hr]
        exact ⟨_, rfl, hbeside.session, rfl, rfl⟩

end Session.Beside

end Rules

end CoreShell
