import CoreShell.Proofs.History

/-!
# What a Log Says

The log of a session and its grades tell the same story. Between two steps, the
log has one entry for every failing unit in scope that was up to the rules, and
no other; the end of a run adds one entry for every unsure unit in scope. No
unit has two entries, so a log is determined by its entries without their order
and their messages.

Entries that only hold at the end of a run are gone when the next one starts,
and no step makes one.

## Main definitions

* `Diagnostic.key`: An entry without its message.
* `Session.Failing`: What the log says of a failing unit.
* `Session.Balanced`: The log says what the grades say.
* `Session.unitEntries`, `Progress.runEntries`: What the end of a run has to say.

## Theorems

* `Step.balanced`: Every step keeps a log balanced.
* `finish_entries`: The entries at the end of a run.
* `finish_keys`: What the log says at the end of a run.
* `finish_nodup`: No unit has two entries at the end of a run.
* `finish_converged`: A run that stops by itself is not reported as cut short.
-/

namespace CoreShell

/-- An entry without its message. -/
def Diagnostic.key (d : Diagnostic) : String × String × Reason :=
  (d.owner, d.unit, d.reason)

namespace Log

theorem record_scope (log : Log) (d : Diagnostic) : (log.record d).scope = log.scope := by
  rw [record]
  split <;> rfl

theorem inScope_record (log : Log) (d : Diagnostic) (owner : String) :
    (log.record d).inScope owner = log.inScope owner := by
  rw [inScope, inScope, record_scope]

theorem record_entries (log : Log) (d : Diagnostic) :
    (log.record d).entries = log.entries ++ (if log.inScope d.owner then [d] else []) := by
  rw [record]
  split <;> simp

/-- Recording a list of entries adds those in scope. -/
theorem foldl_record {α : Type} (f : α → Diagnostic) (l : List α) (log : Log) :
    (l.foldl (fun log a => log.record (f a)) log).entries =
      log.entries ++ (l.filter fun a => log.inScope (f a).owner).map f := by
  induction l generalizing log with
  | nil => simp
  | cons a rest ih =>
      rw [List.foldl_cons, ih, record_entries, List.filter_cons]
      simp only [inScope_record]
      -- Recording does not change what is in scope for the rest.
      by_cases h : log.inScope (f a).owner = true
      · simp [h]
      · simp [h]

end Log

/-- The local rules complain about what a unit is or does itself. -/
theorem judge_rejected {axis : Axis} {p : Program} {u : CodeUnit} {finding : Finding}
    (h : axis.judge p u = .rejected finding) :
    finding.reason ∈ [.voidReturn, .opaqueOperation, .fieldWrite, .fieldRead] := by
  have hfits := judge_fits axis p u
  rw [h] at hfits
  cases hfits with
  | rejected hown => exact hown

/-- What is about a run as a whole is about its end. -/
theorem Reason.isRunLevel_of_isEndOfRun {reason : Reason} (h : reason.isEndOfRun = false) :
    reason.isRunLevel = false := by
  cases reason with
  | nonConvergence => exact h
  | _ => rfl

namespace Session

/-- No reason to fail is about the end of a run. -/
theorem failureReason_isEndOfRun (s : Session) (u : CodeUnit) :
    (s.failureReason u).isEndOfRun = false := by
  have hown : ∀ reason ∈ [Reason.voidReturn, .opaqueOperation, .fieldWrite, .fieldRead],
      reason.isEndOfRun = false := by decide
  rw [failureReason]
  split
  · exact hown _ (judge_rejected ‹_›)
  · rfl

/-- No entry of the log is about the end of a run. -/
def Ongoing (s : Session) : Prop :=
  ∀ d ∈ s.log.entries, d.reason.isEndOfRun = false

theorem prepared_ongoing (s : Session) : s.prepared.Ongoing := by
  intro d hd
  simpa using (List.mem_filter.1 hd).2

theorem Step.ongoing {s t : Session} (h : s.Step t) (hs : s.Ongoing) : t.Ongoing := by
  cases h with
  | opened _ _ _ => exact hs
  | waiting _ _ _ _ => exact hs
  | @decided id u g log _ _ _ hnoted =>
      rcases hnoted.cases with ⟨_, message, rfl⟩ | ⟨_, rfl⟩
      · intro d hd
        rw [conclude, Log.record_entries, List.mem_append] at hd
        rcases hd with hd | hd
        · exact hs d hd
        · split at hd
          · rw [List.mem_singleton.1 hd]
            exact s.failureReason_isEndOfRun u
          · exact absurd hd List.not_mem_nil
      · exact hs

theorem Steps.ongoing {n : Nat} {s t : Session} (h : Steps n s t) (hs : s.Ongoing) : t.Ongoing := by
  induction h with
  | refl _ => exact hs
  | tail _ hstep ih => exact hstep.ongoing (ih hs)

/-- What the log says of a unit that fails. -/
def lineOf (s : Session) (u : CodeUnit) : String × String × Reason :=
  (s.program.typeName u.owner, u.qualified, s.failureReason u)

/-- The log has to say this of some failing unit. -/
def Failing (s : Session) (key : String × String × Reason) : Prop :=
  ∃ id u, Subject s.catalog s.program id u ∧ s.gradeOf id = .not ∧
    s.log.inScope (s.program.typeName u.owner) = true ∧ key = s.lineOf u

/-- The log says what the grades say, and nothing twice. -/
structure Balanced (s : Session) : Prop where
  keys : ∀ key, key ∈ s.log.entries.map Diagnostic.key ↔ s.Failing key
  nodup : (s.log.entries.map Diagnostic.unit).Nodup

/-- A run that starts over starts with an empty log and without failing units
    of its own. -/
theorem prepared_balanced {s : Session} (hfrozen : s.program.frozen = false) :
    s.prepared.Balanced := by
  rcases s.prepared_settings with ⟨_, hcatalog, hprogram, _⟩
  have hlog : s.prepared.log.entries = [] := by
    rw [prepared_log hfrozen]
    rfl
  refine ⟨fun key => ?_, by simp [hlog]⟩
  rw [hlog, List.map_nil]
  refine iff_of_false List.not_mem_nil ?_
  rintro ⟨id, u, hsubject, hgrade, _⟩
  rw [hcatalog, hprogram] at hsubject
  rw [prepared_gradeOf hfrozen hsubject.unit, initialGrade, hsubject.unlisted] at hgrade
  exact absurd hgrade (by decide)

/-- A log stays balanced as long as it is left alone and no unit starts to
    fail. -/
theorem Balanced.same {s t : Session} (hs : s.Balanced) (htask : s.SameTask t)
    (hlog : t.log = s.log) (hgrade : ∀ id, t.gradeOf id = .not ↔ s.gradeOf id = .not) :
    t.Balanced := by
  rcases htask with ⟨haxis, hcatalog, hprogram⟩
  refine ⟨fun key => ?_, by rw [hlog]; exact hs.nodup⟩
  rw [hlog, hs.keys key]
  simp only [Failing, lineOf, failureReason, hlog, haxis, hcatalog, hprogram, hgrade]

/-- Changing an undecided unit to something else than a failure makes no unit
    fail. -/
theorem gradeAt_set_eq_not {grades : Array Grade} {id j : UnitId} {g : Grade}
    (hlt : id < grades.size) (hold : gradeAt grades id ≠ .not) (hg : g ≠ .not) :
    gradeAt (grades.setIfInBounds id g) j = .not ↔ gradeAt grades j = .not := by
  by_cases hj : j = id
  · rw [hj, gradeAt_set_self g hlt]
    exact iff_of_false hg hold
  · rw [gradeAt_set_of_ne g hj]

/-- An entry under the name of a unit is one for that unit. -/
theorem Balanced.not_mem {s : Session} (hs : s.Balanced) (hcurrent : s.Current) {id : UnitId}
    {u : CodeUnit} (hu : s.program.units[id]? = some u) (hold : s.gradeOf id ≠ .not) :
    u.qualified ∉ s.log.entries.map Diagnostic.unit := by
  intro hmem
  rcases List.mem_map.1 hmem with ⟨d, hd, hname⟩
  rcases (hs.keys d.key).1 (List.mem_map_of_mem hd) with ⟨j, v, hv, hfails, _, hkey⟩
  have hqualified : u.qualified = v.qualified :=
    hname.symm.trans (Prod.mk.inj (Prod.mk.inj hkey).2).1
  have hid : id = j := hcurrent.wellFormed.unit_names id j u v hu hv.unit hqualified
  exact hold (hid ▸ hfails)

section Record

variable {s : Session} (hs : s.Balanced) (hcurrent : s.Current) {id : UnitId} {u : CodeUnit}
  (hsubject : Subject s.catalog s.program id u)
include hcurrent hsubject

theorem conclude_eq_not (log : Log) (j : UnitId) :
    (s.conclude id .not log).gradeOf j = .not ↔ j = id ∨ s.gradeOf j = .not := by
  by_cases hj : j = id
  · rw [hj]
    exact iff_of_true (gradeAt_set_self _ (hcurrent.id_lt_grades hsubject.unit)) (Or.inl rfl)
  · rw [or_iff_right hj, gradeOf, conclude, gradeAt_set_of_ne _ hj]
    rfl

/-- One more failing unit is one more thing to say, if it is in scope. -/
theorem conclude_failing (d : Diagnostic) (key : String × String × Reason) :
    (s.conclude id .not (s.log.record d)).Failing key ↔ s.Failing key ∨
      (s.log.inScope (s.program.typeName u.owner) = true ∧ key = s.lineOf u) := by
  constructor
  · -- A unit that fails now is the one of the step or failed before.
    rintro ⟨j, v, hv, hfails, hscope, hkey⟩
    rw [conclude, Log.inScope_record] at hscope
    rcases (conclude_eq_not hcurrent hsubject _ j).1 hfails with rfl | hfails
    · rw [Option.some.inj (hv.unit.symm.trans hsubject.unit)] at hscope hkey
      exact Or.inr ⟨hscope, hkey⟩
    · exact Or.inl ⟨j, v, hv, hfails, hscope, hkey⟩
  · rintro (⟨j, v, hv, hfails, hscope, hkey⟩ | ⟨hscope, hkey⟩)
    · refine ⟨j, v, hv, (conclude_eq_not hcurrent hsubject _ j).2 (Or.inr hfails), ?_, hkey⟩
      rw [conclude, Log.inScope_record]
      exact hscope
    · refine ⟨id, u, hsubject, (conclude_eq_not hcurrent hsubject _ id).2 (Or.inl rfl), ?_, hkey⟩
      rw [conclude, Log.inScope_record]
      exact hscope

include hs

/-- A log stays balanced when a unit that starts to fail is recorded. -/
theorem Balanced.record (hold : s.gradeOf id ≠ .not) {d : Diagnostic} (hd : d.key = s.lineOf u) :
    (s.conclude id .not (s.log.record d)).Balanced := by
  have howner : d.owner = s.program.typeName u.owner := (Prod.mk.inj hd).1
  have hunit : d.unit = u.qualified := (Prod.mk.inj (Prod.mk.inj hd).2).1
  have hnew := hs.not_mem hcurrent hsubject.unit hold
  have hentries : (s.conclude id .not (s.log.record d)).log.entries =
      s.log.entries ++ if s.log.inScope (s.program.typeName u.owner) then [d] else [] := by
    rw [conclude, Log.record_entries, howner]
  -- Out of scope there is no new entry and nothing new to say.
  refine ⟨fun key => ?_, ?_⟩
  · rw [conclude_failing hcurrent hsubject, hentries, List.map_append, List.mem_append, hs.keys key]
    split <;> simp_all
  · rw [hentries, List.map_append]
    split
    · refine hs.nodup.append (by simp) ?_
      simpa [hunit] using hnew
    · simpa using hs.nodup

end Record

/-- Every step keeps a log balanced. -/
theorem Step.balanced {s t : Session} (hcurrent : s.Current) (h : s.Step t) (hs : s.Balanced) :
    t.Balanced := by
  have htask := h.sameTask
  cases h with
  | opened hsubject hfresh _ =>
      refine hs.same htask rfl fun j => ?_
      exact gradeAt_set_eq_not (hcurrent.id_lt_grades hsubject.unit)
        (fun hc => absurd (hfresh.symm.trans hc) (by decide)) (by decide)
  | waiting hsubject hfresh _ _ =>
      refine hs.same htask rfl fun j => ?_
      exact gradeAt_set_eq_not (hcurrent.id_lt_grades hsubject.unit)
        (fun hc => absurd (hfresh.symm.trans hc) (by decide)) (by decide)
  | @decided id u g log hsubject htemp _ hnoted =>
      have hold : s.gradeOf id ≠ .not := fun hc => absurd htemp (by rw [hc]; decide)
      rcases hnoted.cases with ⟨rfl, message, rfl⟩ | ⟨hg, hlog⟩
      · exact hs.record hcurrent hsubject hold rfl
      · refine hs.same htask hlog fun j => ?_
        exact gradeAt_set_eq_not (hcurrent.id_lt_grades hsubject.unit) hold hg

theorem Steps.balanced {n : Nat} {s t : Session} (h : Steps n s t) (hcurrent : s.Current)
    (hs : s.Balanced) : t.Balanced := by
  induction h with
  | refl _ => exact hs
  | tail hsteps hstep ih => exact hstep.balanced (hsteps.current hcurrent) (ih hcurrent hs)

theorem Step.scope_eq {s t : Session} (h : s.Step t) : t.log.scope = s.log.scope := by
  cases h with
  | opened _ _ _ => rfl
  | waiting _ _ _ _ => rfl
  | decided _ _ _ hnoted =>
      rcases hnoted.cases with ⟨_, message, rfl⟩ | ⟨_, rfl⟩
      · exact Log.record_scope _ _
      · rfl

theorem Steps.scope_eq {n : Nat} {s t : Session} (h : Steps n s t) :
    t.log.scope = s.log.scope := by
  induction h with
  | refl _ => rfl
  | tail _ hstep ih => rw [hstep.scope_eq, ih]

/-- The log has to say this of some unsure unit. -/
def Unsettled (s : Session) (key : String × String × Reason) : Prop :=
  ∃ id u, s.program.units[id]? = some u ∧ s.gradeOf id = .unsure ∧
    s.log.inScope (s.program.typeName u.owner) = true ∧
    key = (s.program.typeName u.owner, u.qualified, .unresolved)

theorem mem_unitsWith {s : Session} (hs : s.Current) {g : Grade} {u : CodeUnit} :
    u ∈ s.unitsWith g ↔ ∃ id, s.program.units[id]? = some u ∧ s.gradeOf id = g := by
  rw [unitsWith, List.mem_filter, decide_eq_true_eq]
  constructor
  · rintro ⟨hmem, hgrade⟩
    exact ⟨u.id, hs.wellFormed.mem_units.1 hmem, hgrade⟩
  · rintro ⟨id, hu, hgrade⟩
    refine ⟨hs.mem_units hu, ?_⟩
    rw [hs.id_eq hu]
    exact hgrade

/-- The entries for the unsure units in scope. -/
def openEntries (s : Session) : List Diagnostic :=
  ((s.unitsWith .unsure).filter fun u => s.log.inScope (s.program.typeName u.owner)).map fun u =>
    { owner := s.program.typeName u.owner, unit := u.qualified, reason := .unresolved,
      message := s.explanation u }

/-- What there is to say about the units of a session when a run ends. -/
def unitEntries (s : Session) : List Diagnostic :=
  s.log.entries ++ s.openEntries

section Entries

variable {s : Session} (hcurrent : s.Current) (hbalanced : s.Balanced)
include hcurrent hbalanced

theorem unitEntries_keys (key : String × String × Reason) :
    key ∈ s.unitEntries.map Diagnostic.key ↔ s.Failing key ∨ s.Unsettled key := by
  rw [unitEntries, List.map_append, List.mem_append, hbalanced.keys key, openEntries, List.map_map]
  refine or_congr_right ?_
  simp only [List.mem_map, List.mem_filter, mem_unitsWith hcurrent, Unsettled]
  constructor
  · rintro ⟨u, ⟨⟨id, hu, hgrade⟩, hscope⟩, rfl⟩
    exact ⟨id, u, hu, hgrade, hscope, rfl⟩
  · rintro ⟨id, u, hu, hgrade, hscope, rfl⟩
    exact ⟨u, ⟨⟨id, hu, hgrade⟩, hscope⟩, rfl⟩

theorem unitEntries_nodup : (s.unitEntries.map Diagnostic.unit).Nodup := by
  rw [unitEntries, List.map_append, openEntries, List.map_map]
  refine hbalanced.nodup.append ?_ ?_
  · -- The names of the unsure units are some of the names of all units.
    have hall := distinct_nodup hcurrent.wellFormed.unit_names
    have hsub := (List.filter_sublist (p := fun u : CodeUnit =>
      s.log.inScope (s.program.typeName u.owner))).trans
      (List.filter_sublist (p := fun u : CodeUnit => decide (s.gradeOf u.id = .unsure))
        (l := s.program.units.toList))
    exact hall.sublist (hsub.map CodeUnit.qualified)
  · -- A unit is not unsure and failing at once.
    intro name hmem hmem'
    rcases List.mem_map.1 hmem' with ⟨u, hu, rfl⟩
    rcases (mem_unitsWith hcurrent).1 (List.mem_filter.1 hu).1 with ⟨id, hid, hgrade⟩
    exact hbalanced.not_mem hcurrent hid (by rw [hgrade]; decide) hmem

end Entries

end Session

/-- The entry for a run that met its bound. -/
def Progress.runEntries (r : Progress) (bound : Nat) : List Diagnostic :=
  if r.converged then []
  else [{ owner := "", unit := "", reason := .nonConvergence,
          message := r.session.axis.name ++ " classification still changing after " ++
            toString bound ++ " rounds" }]

theorem Progress.runEntries_runLevel (r : Progress) (bound : Nat) :
    ∀ d ∈ r.runEntries bound, d.reason.isRunLevel = true := by
  intro d hd
  rw [runEntries] at hd
  split at hd
  · exact absurd hd List.not_mem_nil
  · rw [List.mem_singleton.1 hd]
    rfl

/-- The entries at the end of a run. -/
theorem Progress.finish_entries (r : Progress) (bound : Nat) :
    (r.finish bound).log.entries =
      r.session.log.entries ++ r.runEntries bound ++ r.session.openEntries := by
  rw [finish, Session.reportUnresolved_eq, runEntries]
  cases r.converged with
  | true =>
      rw [if_pos rfl, if_pos rfl, List.append_nil]
      exact Log.foldl_record _ _ _
  | false =>
      -- The entry for the run changes neither the scope nor any explanation.
      exact Log.foldl_record _ _ _

section Finish

variable {r : Progress} (hr : r.converged = true) (hcurrent : r.session.Current)
  (hbalanced : r.session.Balanced) (bound : Nat)
include hr

theorem Progress.finish_entries_converged :
    (r.finish bound).log.entries = r.session.unitEntries := by
  rw [finish_entries, runEntries, if_pos hr, List.append_nil]
  rfl

/-- A run that stops by itself is not reported as cut short. -/
theorem Progress.finish_converged (hongoing : r.session.Ongoing) :
    ∀ d ∈ (r.finish bound).log.entries, d.reason ≠ .nonConvergence := by
  intro d hd hreason
  rw [finish_entries_converged hr] at hd
  rcases List.mem_append.1 hd with hd | hd
  · exact absurd (hongoing d hd) (by rw [hreason]; decide)
  · rcases List.mem_map.1 hd with ⟨u, _, rfl⟩
    exact absurd hreason (by simp)

include hcurrent hbalanced

/-- What the log says at the end of a run that stops by itself. -/
theorem Progress.finish_keys (key : String × String × Reason) :
    key ∈ (r.finish bound).log.entries.map Diagnostic.key ↔
      r.session.Failing key ∨ r.session.Unsettled key := by
  rw [finish_entries_converged hr]
  exact Session.unitEntries_keys hcurrent hbalanced key

/-- No unit has two entries at the end of a run that stops by itself. -/
theorem Progress.finish_nodup :
    ((r.finish bound).log.entries.map Diagnostic.unit).Nodup := by
  rw [finish_entries_converged hr]
  exact Session.unitEntries_nodup hcurrent hbalanced

end Finish

end CoreShell
