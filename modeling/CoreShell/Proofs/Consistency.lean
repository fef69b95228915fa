import CoreShell.Proofs.Trail

/-!
# Consistent Tables

A session keeps four things side by side: its program, the grades, the floors and the
units that wait on their overriders. A run changes the last three, a declaration
changes the first and extends the others, and between a declaration and the next run
the tables describe a program that is no longer there. What they say about single
units is right all the same, and that is `Tabled`: what is pending is unsure, and what
is unsure without being pending has calls to wait on and a floor to fall back to.

It is all that the call rule asks for, so none of its two errors can come up, neither
at the start of a run nor in any state that the run goes through.

## Main definitions

* `Session.Tabled`: The tables fit the program.
* `Session.Consistent`: The tables fit, and so does what is counted in them.

## Theorems

* `submit_other`: A submission leaves the other units as they are.
* `Tabled.submit`: A submission leaves tables that fit.
* `Tabled.consistent`: What fits is counted right.
* `Consistent.propagate_ok`: The call rule does not fail.
* `tracedRounds_current`: Every state of a run is current.
* `tables_stay_consistent`: Tables fit at all times, and no run fails.
-/

namespace CoreShell

namespace Program

theorem readUnit_targets (p : Program) (u : CodeUnit) :
    (p.readUnit u).calls.flatMap CallDecl.targets = u.targets.map p.unitName := by
  simp only [readUnit, CodeUnit.targets, List.flatMap_map, List.map_flatMap, readCall]

theorem submit_unit {p : Program} (hp : p.WellFormed) (d : UnitDecl) :
    ∃ u, (p.submit d).1.units[(p.submit d).2]? = some u ∧ u.qualified = d.qualifiedName := by
  rcases submit_prepared hp d with ⟨q, owner, id, body, hq, h⟩
  rcases getElem?_of_lt_size hq.id_lt with ⟨u, hu⟩
  refine ⟨declared d owner body u, ?_, ?_⟩
  · rw [h, replaceUnit, Array.getElem?_modify, if_pos rfl, hu, Option.map_some]
  · exact (unitName_of_getElem? hu).symm.trans hq.id_name

/-- A submission leaves all units but its own as they are. -/
theorem submit_other {p : Program} (hp : p.WellFormed) (d : UnitDecl) {i : UnitId} {u : CodeUnit}
    (hu : p.units[i]? = some u) (hi : i ≠ (p.submit d).2) :
    ∃ v, (p.submit d).1.units[i]? = some v ∧ v.submitted = u.submitted ∧
      (v.targets = [] ↔ u.targets = []) := by
  have hq := submit_wellFormed hp d
  rcases (submit_keepsNames hp d).units i (lt_size_of_getElem? hu) with ⟨hlt, hname⟩
  rcases getElem?_of_lt_size hlt with ⟨v, hv⟩
  rw [unitName_of_getElem? hu, unitName_of_getElem? hv] at hname
  have hne : v.qualified ≠ d.qualifiedName := by
    intro hc
    rcases submit_unit hp d with ⟨w, hw, hwname⟩
    exact hi (hq.unit_names i _ v w hv hw (hc.trans hwname.symm))
  -- The record under the name is the old one, so it reads back as it did.
  have hrecord := inventory_units_of_getElem? hq hv
  rw [submit_inventory hp, Inventory.submit, Inventory.putUnit, Inventory.mention] at hrecord
  simp only [if_neg hne] at hrecord
  rw [hname, inventory_units_of_getElem? hp hu, Option.some_or, Option.some.injEq] at hrecord
  have hread : p.readUnit u = (p.submit d).1.readUnit v := congrArg UnitRecord.decl hrecord
  refine ⟨v, hv, (congrArg UnitRecord.submitted hrecord).symm, ?_⟩
  have htargets := congrArg (fun e => e.calls.flatMap CallDecl.targets) hread
  simp only [readUnit_targets] at htargets
  rw [← List.map_eq_nil_iff (f := (p.submit d).1.unitName), ← htargets, List.map_eq_nil_iff]

end Program

namespace Session

/-- The tables of a session fit its program. -/
structure Tabled (s : Session) : Prop where
  grades_size : s.grades.size = s.program.units.size
  floors_size : s.floors.size = s.program.units.size
  pending_sorted : s.pending.Pairwise (· < ·)
  /-- What is pending was submitted and is unsure. -/
  opened : ∀ id ∈ s.pending, ∃ u, s.program.units[id]? = some u ∧ u.submitted = true ∧
    s.gradeOf id = .unsure
  /-- What is unsure and not pending has calls to wait on, and a floor. -/
  waiting : ∀ (id : UnitId) (u : CodeUnit), s.program.units[id]? = some u →
    s.gradeOf id = .unsure → id ∉ s.pending →
      u.submitted = true ∧ u.targets ≠ [] ∧
        (s.floors.getD id none = some .strict ∨ s.floors.getD id none = some .domain)

theorem Current.tabled {s : Session} (hs : s.Current) : s.Tabled := by
  refine ⟨hs.grades_size, hs.floors_size, hs.pending_sorted, fun id hid => ?_,
    fun id u hu hunsure hclosed => ?_⟩
  · rcases hs.opened_of_pending hid with ⟨u, hsubject, hunsure, _⟩
    exact ⟨u, hsubject.unit, hsubject.submitted, hunsure⟩
  · rcases hs.waiting_of_unsure hu hunsure hclosed with ⟨floor, hsubject, hjudge, hcalls, hfloor⟩
    refine ⟨hsubject.submitted, u.hasCalls_iff.1 hcalls, ?_⟩
    rcases judge_provisional hjudge with rfl | rfl
    · exact Or.inl hfloor
    · exact Or.inr hfloor

theorem Tabled.declareType {s : Session} (hs : s.Tabled) (d : TypeDecl) :
    (s.declareType d).Tabled := by
  have hunits : (s.declareType d).program.units = s.program.units :=
    Program.declareType_units s.program d
  refine ⟨?_, ?_, hs.pending_sorted, ?_, ?_⟩
  · rw [hunits]
    exact hs.grades_size
  · rw [hunits]
    exact hs.floors_size
  · rw [hunits]
    exact hs.opened
  · rw [hunits]
    exact hs.waiting

/-- No unit starts out unsure. -/
theorem initialGrade_ne_unsure (s : Session) (u : CodeUnit) : s.initialGrade u ≠ .unsure := by
  rw [initialGrade]
  rcases hlist : s.catalog.lookup u.qualified with _ | g
  · decide
  · intro hc
    rw [Option.getD_some] at hc
    have hfinal := Catalog.lookup_isFinal hlist
    rw [hc] at hfinal
    exact absurd hfinal (by decide)

theorem gradeAt_eq_unsure_iff {grades : Array Grade} {id : UnitId} :
    gradeAt grades id = .unsure ↔ grades[id]? = some .unsure := by
  rw [gradeAt, Array.getD_eq_getD_getElem?]
  rcases grades[id]? with _ | g <;> simp

section Extend

variable (s : Session) (q : Program) (id : UnitId)

/-- The session after a submission that leads to the given program. -/
def regrown : Session :=
  ({ s with program := q } : Session).extendTables.resetUnit id

/-- What is unsure after a submission was unsure before, and was not submitted. -/
theorem unsure_of_regrown {i : UnitId} (h : (s.regrown q id).gradeOf i = .unsure) :
    i ≠ id ∧ i < s.grades.size ∧ s.gradeOf i = .unsure := by
  have hstart : ∀ (o : Option CodeUnit), o.map s.initialGrade ≠ some .unsure := by
    intro o hc
    rcases Option.map_eq_some_iff.1 hc with ⟨u, _, hu⟩
    exact s.initialGrade_ne_unsure u hu
  rw [gradeOf, gradeAt_eq_unsure_iff] at h
  change ((s.grades ++ (q.units.extract s.grades.size).map s.initialGrade).setIfInBounds id
    ((q.units[id]?.map s.initialGrade).getD .unchecked))[i]? = some .unsure at h
  rw [Array.getElem?_setIfInBounds] at h
  by_cases hid : id = i
  · -- The unit itself is back at its start.
    rw [if_pos hid] at h
    split at h
    · rcases hu : q.units[id]?.map s.initialGrade with _ | g
      · rw [hu] at h
        exact absurd h (by decide)
      · rw [hu, Option.getD_some] at h
        exact absurd (hu.trans h) (hstart _)
    · exact absurd h (by simp)
  · rw [if_neg hid] at h
    by_cases hlt : i < s.grades.size
    · rw [Array.getElem?_append_left hlt] at h
      exact ⟨fun hc => hid hc.symm, hlt, gradeAt_eq_unsure_iff.2 h⟩
    · -- A unit that the submission has made known is at its start, too.
      rw [Array.getElem?_append_right (Nat.le_of_not_lt hlt), Array.getElem?_map] at h
      exact absurd h (hstart _)

theorem regrown_gradeOf {i : UnitId} (hid : i ≠ id) (hlt : i < s.grades.size) :
    (s.regrown q id).gradeOf i = s.gradeOf i := by
  refine (gradeAt_set_of_ne _ hid).trans ?_
  change gradeAt (s.grades ++ (q.units.extract s.grades.size).map s.initialGrade) i = _
  rw [gradeOf, gradeAt, gradeAt, Array.getD_eq_getD_getElem?, Array.getD_eq_getD_getElem?,
    Array.getElem?_append_left hlt]

theorem regrown_floor {i : UnitId} (hid : i ≠ id) (hlt : i < s.floors.size) :
    (s.regrown q id).floors.getD i none = s.floors.getD i none := by
  change ((s.floors ++ (q.units.extract s.grades.size).map fun _ => none).setIfInBounds id
    none).getD i none = _
  rw [Array.getD_eq_getD_getElem?, Array.getD_eq_getD_getElem?,
    Array.getElem?_setIfInBounds_ne fun hc => hid hc.symm, Array.getElem?_append_left hlt]

theorem mem_regrown_pending {i : UnitId} :
    i ∈ (s.regrown q id).pending ↔ i ∈ s.pending ∧ i ≠ id := by
  change i ∈ s.pending.filter (· ≠ id) ↔ _
  rw [List.mem_filter, decide_eq_true_eq]

end Extend

/-- A submission leaves tables that fit. The unit itself is back at its start, new
    units are at theirs, and about all others the tables say what they said. -/
theorem Tabled.submit {s : Session} (hp : s.program.WellFormed) (hs : s.Tabled) (d : UnitDecl) :
    (s.submit d).1.Tabled := by
  change (s.regrown (s.program.submit d).1 (s.program.submit d).2).Tabled
  have hsize := (Program.submit_keepsNames hp d).units_size_le
  have hgrades := hs.grades_size
  have hfloors := hs.floors_size
  refine ⟨?_, ?_, hs.pending_sorted.filter _, fun i hi => ?_, fun i v hv hunsure hclosed => ?_⟩
  · simp only [regrown, resetUnit, extendTables, Array.size_setIfInBounds, Array.size_append,
      Array.size_map, Array.size_extract]
    omega
  · simp only [regrown, resetUnit, extendTables, Array.size_setIfInBounds, Array.size_append,
      Array.size_map, Array.size_extract]
    omega
  · -- What is still pending was not submitted, so its record is the old one.
    rcases (s.mem_regrown_pending _ _).1 hi with ⟨hpending, hid⟩
    rcases hs.opened i hpending with ⟨u, hu, hsub, hunsure⟩
    rcases Program.submit_other hp d hu hid with ⟨v, hv, hsub', _⟩
    refine ⟨v, hv, hsub'.trans hsub, ?_⟩
    rw [s.regrown_gradeOf _ _ hid (by rw [hgrades]; exact lt_size_of_getElem? hu)]
    exact hunsure
  · -- Units at their start are not unsure, so this one is old and was not submitted.
    rcases s.unsure_of_regrown _ _ hunsure with ⟨hid, hlt, hunsure'⟩
    rw [hgrades] at hlt
    rcases getElem?_of_lt_size hlt with ⟨u, hu⟩
    rcases Program.submit_other hp d hu hid with ⟨v', hv', hsub', htargets⟩
    have hvv : v' = v := Option.some.inj (hv'.symm.trans hv)
    subst hvv
    have hclosed' : i ∉ s.pending := fun hc => hclosed ((s.mem_regrown_pending _ _).2 ⟨hc, hid⟩)
    rcases hs.waiting i u hu hunsure' hclosed' with ⟨hsub, hcalls, hfloor⟩
    rw [s.regrown_floor _ _ hid (by rw [hfloors]; exact hlt)]
    exact ⟨hsub'.trans hsub, fun hc => hcalls (htargets.1 hc), hfloor⟩

/-- Every operation leaves tables that fit. -/
theorem perform_tabled {s t : Session} {op : Operation} (hs : s.Lawful) (htabled : s.Tabled)
    (h : s.perform op = .ok t) : t.Tabled := by
  cases op with
  | declare d =>
      rw [← Except.ok.inj h]
      exact (declare_induction (P := fun s _ => s.program.WellFormed ∧ s.Tabled)
        (fun _ _ d h => ⟨Program.declareType_wellFormed h.1 d, h.2.declareType d⟩)
        (fun _ _ d h => ⟨Program.submit_wellFormed h.1 d, h.2.submit h.1 d⟩)
        (p := s.program) ⟨hs.wellFormed, htabled⟩ d).2
  | limitRounds n =>
      rw [← Except.ok.inj h]
      exact ⟨htabled.grades_size, htabled.floors_size, htabled.pending_sorted, htabled.opened,
        htabled.waiting⟩
  | run =>
      rcases exists_of_map_eq_ok h with ⟨⟨r, summary⟩, hrun, rfl⟩
      exact (run_current hs hrun).tabled

/-- The tables fit, and what is counted in them is right. -/
structure Consistent (s : Session) : Prop extends Tabled s where
  /-- No external unit is unsure. -/
  foreign : ∀ (id : UnitId) (u : CodeUnit), s.program.units[id]? = some u →
    u.submitted = false → s.gradeOf id ≠ .unsure
  total : s.counts.total = s.program.units.size
  openInterfaces_le : s.counts.openInterfaces ≤ s.counts.unsure

/-- Every entry of a table of grades is counted under one grade. -/
theorem countP_grades (l : List Grade) :
    l.countP (· = .strict) + l.countP (· = .domain) + l.countP (· = .not) +
      l.countP (· = .unsure) + l.countP (· = .unchecked) = l.length := by
  induction l with
  | nil => rfl
  | cons g rest ih =>
      cases g <;> simp only [List.countP_cons, List.length_cons, decide_true, reduceCtorEq,
        decide_false, Bool.false_eq_true, if_true, if_false] <;> omega

/-- The positions with a grade are as many as are counted. -/
theorem countOf_eq_length (s : Session) (g : Grade) :
    s.countOf g = ((List.range s.grades.size).filter fun i => s.gradeOf i = g).length := by
  have hgrades : s.grades.toList = (List.range s.grades.size).map s.gradeOf := by
    refine List.ext_getElem (by simp) fun i hi _ => ?_
    rw [Array.length_toList] at hi
    simp [gradeOf, gradeAt, hi]
  rw [countOf, hgrades, List.countP_map, List.countP_eq_length_filter]
  rfl

/-- Tables that fit are counted right. -/
theorem Tabled.consistent {s : Session} (hs : s.Tabled) : s.Consistent := by
  refine ⟨hs, fun id u hu hforeign hunsure => ?_, ?_, ?_⟩
  · have hsub : u.submitted = true := by
      by_cases hid : id ∈ s.pending
      · rcases hs.opened id hid with ⟨v, hv, hsub, _⟩
        rw [← Option.some.inj (hv.symm.trans hu)]
        exact hsub
      · exact (hs.waiting id u hu hunsure hid).1
    rw [hforeign] at hsub
    exact absurd hsub (by decide)
  · rw [← hs.grades_size]
    exact countP_grades s.grades.toList
  · -- No unit is pending twice, and every pending one is counted among the unsure.
    have hnodup : s.pending.Nodup := hs.pending_sorted.imp fun h => Nat.ne_of_lt h
    change s.pending.length ≤ s.countOf .unsure
    rw [countOf_eq_length]
    refine (List.subperm_of_subset hnodup fun id hid => ?_).length_le
    rcases hs.opened id hid with ⟨u, hu, _, hunsure⟩
    have hlt : id < s.grades.size := by
      rw [hs.grades_size]
      exact lt_size_of_getElem? hu
    simp [hlt, hunsure]

/-- The call rule does not fail on a unit that it is applied to. -/
theorem Consistent.propagate_ok {s : Session} (hs : s.Consistent) {u : CodeUnit}
    (hu : s.program.units[u.id]? = some u) (hunsure : s.gradeOf u.id = .unsure)
    (hclosed : u.id ∉ s.pending) : ∃ w, s.propagate u = .ok w := by
  have hfloor : ∃ floor, s.floors.getD u.id none = some floor := by
    rcases (hs.waiting u.id u hu hunsure hclosed).2.2 with h | h
    · exact ⟨_, h⟩
    · exact ⟨_, h⟩
  rcases hfloor with ⟨floor, hfloor⟩
  simp only [propagate, if_neg (not_not.2 hunsure), hfloor]
  cases s.program.evaluateCalls s.grades floor u <;> exact ⟨_, rfl⟩

end Session

namespace Sweep

/-- If a rule keeps an invariant, every state in the trail of a pass has what follows
    from it, and the last one has nothing left to visit. -/
theorem traced_forall {α : Type} {rule : Sweep → α → Except Error Sweep} {P : Session → Prop}
    (inv : List α → Session → Prop) (hinv : ∀ rest s, inv rest s → P s)
    (hrule : ∀ (a : α) (rest : List α) (w w' : Sweep), inv (a :: rest) w.session →
      rule w a = .ok w' → inv rest w'.session)
    {l : List α} {w : Sweep} (hl : inv l w.session) {visited : List Session} {last : Sweep}
    (h : w.traced rule l = .ok (visited, last)) :
    (∀ t ∈ visited, P t) ∧ inv [] last.session := by
  induction l generalizing w visited last with
  | nil =>
      rcases Prod.mk.inj (Except.ok.inj h) with ⟨rfl, rfl⟩
      exact ⟨fun t ht => absurd ht List.not_mem_nil, hl⟩
  | cons a rest ih =>
      rw [traced] at h
      rcases exists_of_bind_eq_ok h with ⟨v, hv, h⟩
      rcases exists_of_bind_eq_ok h with ⟨⟨later, last'⟩, hlater, h⟩
      rcases Prod.mk.inj (Except.ok.inj h) with ⟨rfl, rfl⟩
      have hnext := hrule a rest w v hl hv
      rcases ih hnext hlater with ⟨hvisited, hlast⟩
      exact ⟨List.forall_mem_cons.2 ⟨hinv rest v.session hnext, hvisited⟩, hlast⟩

section Passes

variable {w last : Sweep} (hw : w.session.Current) {visited : List Session}
include hw

/-- Every state of the first pass is current. -/
theorem traced_judgeLocally_current
    (h : w.traced (fun w u => .ok (w.judgeLocally u)) w.session.program.units.toList =
      .ok (visited, last)) : (∀ t ∈ visited, t.Current) ∧ last.session.Current := by
  have hinv : LocalsInv w.session.program.units.toList w.session :=
    ⟨hw, fun _ hu => hw.wellFormed.mem_units.1 hu, fun _ _ hu _ _ => hw.mem_units hu⟩
  refine (traced_forall LocalsInv (fun _ _ h => h.current) ?_ hinv h).imp_right (·.current)
  intro u rest v v' hinv hv'
  rw [← Except.ok.inj hv']
  exact (judgeLocally_follows u rest v hinv).2

/-- Every state of the second pass is current. -/
theorem traced_propagate_current
    (h : w.traced propagate w.session.program.units.toList = .ok (visited, last)) :
    (∀ t ∈ visited, t.Current) ∧ last.session.Current := by
  have hinv : CallsInv w.session.program.units.toList w.session :=
    ⟨hw, fun _ hu => hw.wellFormed.mem_units.1 hu⟩
  refine (traced_forall CallsInv (fun _ _ h => h.current) ?_ hinv h).imp_right (·.current)
  intro u rest v v' hinv hv'
  rcases propagate_follows u rest v hinv with ⟨v'', hv'', _, hnext⟩
  rw [Except.ok.inj (hv'.symm.trans hv'')]
  exact hnext

/-- Every state of the third pass is current. -/
theorem traced_resolve_current
    (h : w.traced (fun w id => .ok (w.resolve id)) w.session.pending = .ok (visited, last)) :
    (∀ t ∈ visited, t.Current) ∧ last.session.Current := by
  have hinv : DispatchesInv w.session.pending w.session :=
    ⟨hw, hw.pending_sorted.imp fun h => Nat.ne_of_lt h, fun _ h => h⟩
  refine (traced_forall DispatchesInv (fun _ _ h => h.current) ?_ hinv h).imp_right (·.current)
  intro id rest v v' hinv hv'
  rw [← Except.ok.inj hv']
  exact (resolve_follows id rest v hinv).2

end Passes

end Sweep

namespace Session

/-- Every state of a round is current. -/
theorem tracedRound_current {s : Session} (hs : s.Current) {visited : List Session} {w : Sweep}
    (h : s.tracedRound = .ok (visited, w)) : (∀ t ∈ visited, t.Current) ∧ w.session.Current := by
  rw [tracedRound] at h
  rcases exists_of_bind_eq_ok h with ⟨⟨first, v⟩, hfirst, h⟩
  rcases exists_of_bind_eq_ok h with ⟨⟨second, v'⟩, hsecond, h⟩
  rcases exists_of_bind_eq_ok h with ⟨⟨third, v''⟩, hthird, h⟩
  rcases Prod.mk.inj (Except.ok.inj h) with ⟨rfl, rfl⟩
  rcases Sweep.traced_judgeLocally_current (w := { session := s }) hs hfirst with ⟨hlocals, hv⟩
  rcases Sweep.traced_propagate_current hv hsecond with ⟨hcalls, hv'⟩
  rcases Sweep.traced_resolve_current hv' hthird with ⟨hdispatches, hlast⟩
  refine ⟨fun t ht => ?_, hlast⟩
  rcases List.mem_append.1 ht with ht | ht
  · rcases List.mem_append.1 ht with ht | ht
    · exact hlocals t ht
    · exact hcalls t ht
  · exact hdispatches t ht

/-- Every state of a run is current. -/
theorem tracedRounds_current {s : Session} (hs : s.Current) {bound : Nat}
    {visited : List Session} {r : Progress} (h : s.tracedRounds bound = .ok (visited, r)) :
    ∀ t ∈ visited, t.Current := by
  induction bound generalizing s visited r with
  | zero =>
      rcases Prod.mk.inj (Except.ok.inj h) with ⟨rfl, rfl⟩
      exact fun t ht => absurd ht List.not_mem_nil
  | succ bound ih =>
      rw [tracedRounds] at h
      rcases exists_of_bind_eq_ok h with ⟨⟨first, w⟩, hround, h⟩
      rcases tracedRound_current hs hround with ⟨hfirst, hw⟩
      change (if w.changed = true then _ else _) = _ at h
      by_cases hchanged : w.changed = true
      · rw [if_pos hchanged] at h
        rcases exists_of_bind_eq_ok h with ⟨⟨later, rest⟩, hlater, h⟩
        rcases Prod.mk.inj (Except.ok.inj h) with ⟨rfl, rfl⟩
        exact List.forall_mem_append.2 ⟨hfirst, ih hw hlater⟩
      · rw [if_neg hchanged] at h
        rcases Prod.mk.inj (Except.ok.inj h) with ⟨rfl, rfl⟩
        exact hfirst

/-- Whatever has happened to a session, a run of it does not fail. The tables are
    consistent before the run, in every state that it goes through and at its end, and
    the call rule finds what it asks for in any of these states. -/
theorem tables_stay_consistent (axis : Axis) (catalog : Catalog) (scope : List String)
    (ops : List Operation) :
    ∃ s visited r summary, (start axis catalog scope).performAll ops = .ok s ∧
      s.prepared.tracedRounds s.roundBound = .ok (visited, r) ∧
      s.prepared.iterate s.roundBound = .ok r ∧
      s.run = .ok (r.finish s.roundBound, summary) ∧
      ∀ t ∈ s :: s.prepared :: (visited ++ [r.finish s.roundBound]), t.Consistent ∧
        ∀ u ∈ t.program.units, t.gradeOf u.id = .unsure → u.id ∉ t.pending →
          ∃ w, t.propagate u = .ok w := by
  have hstart : (start axis catalog scope).Tabled :=
    ⟨rfl, rfl, List.Pairwise.nil, fun _ h => absurd h List.not_mem_nil,
      fun _ _ hu _ _ => absurd hu (by simp [start])⟩
  -- Before the run the tables may lag behind the program. From its start they do not.
  rcases performAll_induction (P := Tabled) (start_lawful axis catalog scope) hstart
    (fun _ _ _ hs htabled h => perform_tabled hs htabled h) ops with ⟨s, hperform, hs, htabled⟩
  have hprepared := prepared_current hs
  rcases tracedRounds_path hprepared s.roundBound with ⟨visited, r, htraced, hr, _⟩
  rcases run_spec hs with ⟨r', n, hr', _, _, hrun⟩
  rw [← Except.ok.inj (hr.symm.trans hr')] at hrun
  refine ⟨s, visited, r, _, hperform, htraced, hr, hrun, fun t ht => ?_⟩
  have hduring : t ∈ s.prepared :: (visited ++ [r.finish s.roundBound]) → t.Current := by
    intro ht
    rcases List.mem_cons.1 ht with rfl | ht
    · exact hprepared
    · rcases List.mem_append.1 ht with ht | ht
      · exact tracedRounds_current hprepared htraced t ht
      · rw [List.mem_singleton.1 ht]
        exact run_current hs hrun
  have hstate : t.program.WellFormed ∧ t.Tabled := by
    rcases List.mem_cons.1 ht with rfl | ht
    · exact ⟨hs.wellFormed, htabled⟩
    · exact ⟨(hduring ht).wellFormed, (hduring ht).tabled⟩
  have hconsistent := hstate.2.consistent
  refine ⟨hconsistent, fun u hu hunsure hclosed => hconsistent.propagate_ok ?_ hunsure hclosed⟩
  exact hstate.1.getElem?_of_mem hu

end Session

end CoreShell
