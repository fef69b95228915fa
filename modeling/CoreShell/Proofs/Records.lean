import CoreShell.Proofs.Endings

/-!
# One Record for One Reason

After a run, whatever came before it and whether or not it was cut short, the log
can be read off the table. An unsure unit in scope has one record, and so has a
failing one that the catalogue does not list. All others have none, and the run
itself has one exactly if it was cut short.

A unit may have an empty name, as records about a run do. So records are told
apart by their reasons first.

## Main definitions

* `Session.reason?`: The reason that a unit is to be reported for.
* `Log.aboutUnit`: The records about a unit that are not about the run.

## Theorems

* `unitEntries_keys_iff`: What there is to say about units, by their reasons.
* `filter_eq_singleton`: An entry with its own name is found alone.
* `finish_unitLevel`, `finish_runLevel`: The two kinds of records after a run.
* `records_match_grades`: Records and the table correspond, after any history.
-/

namespace CoreShell

/-- The records about a unit that are not about the run. -/
def Log.aboutUnit (log : Log) (unit : String) : List Diagnostic :=
  (log.forUnit unit).filter fun d => !d.reason.isRunLevel

/-- In a list without repeated names, what has the name of an entry is that
    entry. -/
theorem filter_eq_singleton {α β : Type} [DecidableEq β] {f : α → β} {l : List α}
    (h : (l.map f).Nodup) {a : α} (ha : a ∈ l) : l.filter (fun b => f b = f a) = [a] := by
  induction l with
  | nil => exact absurd ha List.not_mem_nil
  | cons b rest ih =>
      rw [List.map_cons, List.nodup_cons] at h
      rcases List.mem_cons.1 ha with rfl | ha
      · have hnone : rest.filter (fun b => f b = f a) = [] := by
          refine List.filter_eq_nil_iff.2 fun b hb => ?_
          have hne : f b ≠ f a := fun heq => h.1 (heq ▸ List.mem_map_of_mem hb)
          simpa using hne
        rw [List.filter_cons_of_pos (by simp), hnone]
      · have hne : f b ≠ f a := fun heq => h.1 (heq ▸ List.mem_map_of_mem ha)
        rw [List.filter_cons_of_neg (by simpa using hne), ih h.2 ha]

namespace Session

/-- The reason that a unit is to be reported for, if its owner is in scope: it is
    unsure, or it fails and the catalogue does not say so. -/
def reason? (s : Session) (u : CodeUnit) : Option Reason :=
  if s.log.inScope (s.program.typeName u.owner) then
    if s.gradeOf u.id = .unsure then some .unresolved
    else if s.gradeOf u.id = .not ∧ s.catalog.lookup u.qualified = none then
      some (s.failureReason u)
    else none
  else none

/-- What the log has to say of a unit with a reason. -/
def recordKey (s : Session) (u : CodeUnit) (reason : Reason) : String × String × Reason :=
  (s.program.typeName u.owner, u.qualified, reason)

theorem reason?_of_unsure {s : Session} {u : CodeUnit}
    (hscope : s.log.inScope (s.program.typeName u.owner) = true)
    (hunsure : s.gradeOf u.id = .unsure) : s.reason? u = some .unresolved := by
  rw [reason?, if_pos hscope, if_pos hunsure]

theorem reason?_of_not {s : Session} {u : CodeUnit}
    (hscope : s.log.inScope (s.program.typeName u.owner) = true) (hfails : s.gradeOf u.id = .not)
    (hunlisted : s.catalog.lookup u.qualified = none) :
    s.reason? u = some (s.failureReason u) := by
  rw [reason?, if_pos hscope, if_neg (by simp [hfails]), if_pos ⟨hfails, hunlisted⟩]

theorem reason?_cases {s : Session} {u : CodeUnit} {reason : Reason}
    (h : s.reason? u = some reason) :
    s.log.inScope (s.program.typeName u.owner) = true ∧
      (s.gradeOf u.id = .unsure ∧ reason = .unresolved ∨
        s.gradeOf u.id = .not ∧ s.catalog.lookup u.qualified = none ∧
          reason = s.failureReason u) := by
  rw [reason?] at h
  split_ifs at h with hscope hunsure hfails
  · exact ⟨hscope, Or.inl ⟨hunsure, (Option.some.inj h).symm⟩⟩
  · exact ⟨hscope, Or.inr ⟨hfails.1, hfails.2, (Option.some.inj h).symm⟩⟩

/-- The rules have the last word on a unit that the catalogue does not list, if
    there is one. -/
theorem Current.subject_of_unlisted {s : Session} (hs : s.Current) {id : UnitId} {u : CodeUnit}
    (hu : s.program.units[id]? = some u) (hunlisted : s.catalog.lookup u.qualified = none)
    (hchecked : s.gradeOf id ≠ .unchecked) : Subject s.catalog s.program id u := by
  cases hs.entry id u hu with
  | listed hlist _ _ => exact absurd (hlist.symm.trans hunlisted) (by simp)
  | foreign _ _ hg _ => exact absurd hg hchecked
  | fresh hsubject _ _ => exact hsubject
  | opened hsubject _ _ _ => exact hsubject
  | waiting hsubject _ _ _ _ _ => exact hsubject
  | decided hsubject _ _ _ => exact hsubject

section Records

variable {s : Session} (hcurrent : s.Current) (hbalanced : s.Balanced)
include hcurrent hbalanced

/-- What there is to say about units, by their reasons. -/
theorem unitEntries_keys_iff (key : String × String × Reason) :
    key ∈ s.unitEntries.map Diagnostic.key ↔
      ∃ u ∈ s.program.units.toList, ∃ reason, s.reason? u = some reason ∧
        key = s.recordKey u reason := by
  rw [unitEntries_keys hcurrent hbalanced]
  constructor
  · rintro (⟨id, u, hsubject, hfails, hscope, hkey⟩ | ⟨id, u, hu, hunsure, hscope, hkey⟩)
    · have hreason := reason?_of_not hscope (hcurrent.id_eq hsubject.unit ▸ hfails)
        hsubject.unlisted
      exact ⟨u, hcurrent.mem_units hsubject.unit, _, hreason, hkey⟩
    · have hreason := reason?_of_unsure hscope (hcurrent.id_eq hu ▸ hunsure)
      exact ⟨u, hcurrent.mem_units hu, _, hreason, hkey⟩
  · rintro ⟨u, hmem, reason, hreason, hkey⟩
    have hu := hcurrent.wellFormed.mem_units.1 hmem
    rcases reason?_cases hreason with ⟨hscope, ⟨hunsure, rfl⟩ | ⟨hfails, hunlisted, rfl⟩⟩
    · exact Or.inr ⟨u.id, u, hu, hunsure, hscope, hkey⟩
    · have hsubject := hcurrent.subject_of_unlisted hu hunlisted (by rw [hfails]; decide)
      exact Or.inl ⟨u.id, u, hsubject, hfails, hscope, hkey⟩

/-- An entry under the name of a unit is for the reason of the unit. -/
theorem reason?_of_mem {u : CodeUnit} (hu : u ∈ s.program.units.toList) {d : Diagnostic}
    (hd : d ∈ s.unitEntries) (hname : d.unit = u.qualified) :
    ∃ reason, s.reason? u = some reason ∧ d.key = s.recordKey u reason := by
  rcases (unitEntries_keys_iff hcurrent hbalanced d.key).1 (List.mem_map_of_mem hd) with
    ⟨v, hv, reason, hreason, hkey⟩
  have hqualified : u.qualified = v.qualified :=
    hname.symm.trans (Prod.mk.inj (Prod.mk.inj hkey).2).1
  have hwellFormed := hcurrent.wellFormed
  rw [hwellFormed.mem_units] at hu hv
  have hid := hwellFormed.unit_names u.id v.id u v hu hv hqualified
  rw [← hid, hu] at hv
  rw [Option.some.inj hv]
  exact ⟨reason, hreason, hkey⟩

/-- The entries for a unit are the one there is a reason for. -/
theorem unitEntries_filter {u : CodeUnit} (hu : u ∈ s.program.units.toList) :
    (s.unitEntries.filter fun d => d.unit = u.qualified).map Diagnostic.key =
      (s.reason? u).toList.map (s.recordKey u) := by
  rcases hreason : s.reason? u with _ | reason
  · -- Whatever bears the name of the unit would be a reason.
    have hnone : s.unitEntries.filter (fun d => d.unit = u.qualified) = [] := by
      refine List.filter_eq_nil_iff.2 fun d hd hname => ?_
      rcases reason?_of_mem hcurrent hbalanced hu hd (by simpa using hname) with ⟨_, hsome, _⟩
      exact absurd (hreason.symm.trans hsome) (by simp)
    rw [hnone]
    rfl
  · have hmem := (unitEntries_keys_iff hcurrent hbalanced (s.recordKey u reason)).2
      ⟨u, hu, reason, hreason, rfl⟩
    rcases List.mem_map.1 hmem with ⟨d, hd, hkey⟩
    have hname : d.unit = u.qualified := (Prod.mk.inj (Prod.mk.inj hkey).2).1
    rw [← hname, filter_eq_singleton (unitEntries_nodup hcurrent hbalanced) hd, List.map_singleton,
      hkey]
    rfl

end Records

end Session

namespace Progress

theorem finish_reason? (r : Progress) (bound : Nat) (u : CodeUnit) :
    (r.finish bound).reason? u = r.session.reason? u := by
  have hscope : ∀ owner, (r.finish bound).log.inScope owner = r.session.log.inScope owner := by
    intro owner
    rw [Log.inScope, Log.inScope, finish_scope]
  rw [Session.reason?, hscope, r.finish_eq]
  rfl

section Levels

variable {r : Progress} (hongoing : r.session.Ongoing) (bound : Nat)

theorem openEntries_unitLevel (s : Session) :
    ∀ d ∈ s.openEntries, d.reason.isRunLevel = false := by
  intro d hd
  rcases List.mem_map.1 hd with ⟨u, _, rfl⟩
  rfl

include hongoing

theorem entries_unitLevel : ∀ d ∈ r.session.log.entries, d.reason.isRunLevel = false :=
  fun d hd => Reason.isRunLevel_of_isEndOfRun (hongoing d hd)

/-- The records about units after a run. -/
theorem finish_unitLevel :
    ((r.finish bound).log.entries.filter fun d => !d.reason.isRunLevel) =
      r.session.unitEntries := by
  have hbefore : (r.session.log.entries.filter fun d => !d.reason.isRunLevel) =
      r.session.log.entries :=
    List.filter_eq_self.2 fun d hd => by simp [entries_unitLevel hongoing d hd]
  have hrun : ((r.runEntries bound).filter fun d => !d.reason.isRunLevel) = [] :=
    List.filter_eq_nil_iff.2 fun d hd => by simp [runEntries_runLevel r bound d hd]
  have hopen : (r.session.openEntries.filter fun d => !d.reason.isRunLevel) =
      r.session.openEntries :=
    List.filter_eq_self.2 fun d hd => by simp [openEntries_unitLevel _ d hd]
  rw [finish_entries, List.filter_append, List.filter_append, hbefore, hrun, hopen, List.append_nil]
  rfl

/-- The records about the run after it. -/
theorem finish_runLevel :
    ((r.finish bound).log.entries.filter fun d => d.reason.isRunLevel) = r.runEntries bound := by
  have hbefore : (r.session.log.entries.filter fun d => d.reason.isRunLevel) = [] :=
    List.filter_eq_nil_iff.2 fun d hd => by simp [entries_unitLevel hongoing d hd]
  have hrun : ((r.runEntries bound).filter fun d => d.reason.isRunLevel) = r.runEntries bound :=
    List.filter_eq_self.2 (runEntries_runLevel r bound)
  have hopen : (r.session.openEntries.filter fun d => d.reason.isRunLevel) = [] :=
    List.filter_eq_nil_iff.2 fun d hd => by simp [openEntries_unitLevel _ d hd]
  rw [finish_entries, List.filter_append, List.filter_append, hbefore, hrun, hopen, List.append_nil,
    List.nil_append]

end Levels

end Progress

namespace Session

/-- After a run that comes after any history, and whether or not it was cut
    short: every unit has the one record there is a reason for or none, no other
    record is about a unit, and the run has one exactly if it was cut short. What
    local rules reject a unit for is one of four reasons. -/
theorem records_match_grades (axis : Axis) (catalog : Catalog) (scope : List String)
    (ops : List Operation) :
    ∃ s t summary, (start axis catalog scope).performAll ops = .ok s ∧
      s.run = .ok (t, summary) ∧
      t.axis = axis ∧ t.catalog = catalog ∧ t.log.scope = scope ∧
      (∀ u ∈ t.program.units.toList, (t.log.aboutUnit u.qualified).map Diagnostic.key =
        (t.reason? u).toList.map (t.recordKey u)) ∧
      (∀ d ∈ t.log.entries, d.reason.isRunLevel = false →
        ∃ u ∈ t.program.units.toList, d.unit = u.qualified) ∧
      (∀ u finding, axis.judge t.program u = .rejected finding →
        finding.reason ∈ [.voidReturn, .opaqueOperation, .fieldWrite, .fieldRead]) ∧
      (t.log.entries.filter fun d => d.reason.isRunLevel).map Diagnostic.reason =
        if summary.converged then [] else [.nonConvergence] := by
  have hdeclared := start_declareAll axis catalog scope (Operation.declarations ops)
  rcases history_ending axis catalog scope ops with ⟨s, r, summary, hperform, hrun, hsummary, hr⟩
  have hcurrent := hr.grounded.current
  have hbalanced := hr.grounded.balanced
  have hlevel := Progress.finish_unitLevel hr.grounded.ongoing s.roundBound
  rcases hr.settings s.roundBound with ⟨haxis, hcatalog, hscope⟩
  rw [hdeclared.axis_eq] at haxis
  rw [hdeclared.catalog_eq] at hcatalog
  rw [hdeclared.scope_eq] at hscope
  refine ⟨s, _, summary, hperform, hrun, haxis, hcatalog, hscope, fun u hu => ?_,
    fun d hd hunit => ?_, fun u finding => judge_rejected, ?_⟩
  · rw [r.finish_program] at hu
    have hkey : (r.finish s.roundBound).recordKey u = r.session.recordKey u := by
      rw [r.finish_eq]
      rfl
    rw [Log.aboutUnit, Log.forUnit, List.filter_comm, hlevel, r.finish_reason?, hkey,
      unitEntries_filter hcurrent hbalanced hu]
  · -- A record that is not about the run is one of those for units.
    have hmem : d ∈ r.session.unitEntries := by
      rw [← hlevel]
      exact List.mem_filter.2 ⟨hd, by simp [hunit]⟩
    rcases (unitEntries_keys_iff hcurrent hbalanced d.key).1 (List.mem_map_of_mem hmem) with
      ⟨u, hu, reason, _, hkey⟩
    rw [r.finish_program]
    exact ⟨u, hu, (Prod.mk.inj (Prod.mk.inj hkey).2).1⟩
  · rw [Progress.finish_runLevel hr.grounded.ongoing, hsummary, Progress.runEntries]
    cases r.converged <;> rfl

end Session

end CoreShell
