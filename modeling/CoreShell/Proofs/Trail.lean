import CoreShell.Proofs.Resume

/-!
# The Trail of a Run

Between its start and its end, a run goes through many states, one for every
time a rule is applied to a unit. Its trail is the list of all of them. The rules
that leave the trail are those that make the rounds, in the same order, so the
trail ends where the rounds end.

From one state to the next at most one entry of the table is written, for a unit
that was submitted, and its grade only advances: from unchecked to anything
else, or from unsure to a final grade. A final grade is therefore there to stay,
and so is one that another limit on the rounds would have led to.

## Main definitions

* `Grade.Advances`: The moves a grade can make.
* `Session.Update`: At most one grade advances.
* `Session.Path`: A list of states with an update before each of them.
* `Session.Later`: What holds between any two states of a run.
* `Session.tracedRounds`: The rounds of a run, with their trail.

## Theorems

* `Step.update`: Every step advances one grade.
* `traced_path`: A pass leaves a trail of updates.
* `tracedRound_path`: So does a round.
* `tracedRounds_path`: So do the rounds of a run.
* `grades_advance`: Grades advance over all histories, and final ones stay.
-/

namespace CoreShell

/-- The moves a grade can make: somebody looks at the unit, or its verdict
    comes in. -/
inductive Grade.Advances : Grade → Grade → Prop
  | looked {g : Grade} (looked : g ≠ .unchecked) : Advances .unchecked g
  | decided {g : Grade} (final : g.isFinal = true) : Advances .unsure g

theorem Grade.Advances.isTemporary {g g' : Grade} (h : g.Advances g') : g.isTemporary = true := by
  cases h <;> rfl

theorem Grade.Advances.ne_unchecked {g g' : Grade} (h : g.Advances g') : g' ≠ .unchecked := by
  cases h with
  | looked hg => exact hg
  | decided hfinal =>
      rintro rfl
      exact absurd hfinal (by decide)

theorem Grade.advances_of_isFinal {g g' : Grade} (h : g.isTemporary = true)
    (hfinal : g'.isFinal = true) : g.Advances g' := by
  rcases (Grade.isTemporary_iff g).1 h with rfl | rfl
  · refine .looked ?_
    rintro rfl
    exact absurd hfinal (by decide)
  · exact .decided hfinal

namespace Session

/-- At most one entry of the table is written. It belongs to a submitted unit,
    and its grade advances. -/
structure Update (s t : Session) : Prop where
  program : t.program = s.program
  table : t.grades = s.grades ∨ ∃ (id : UnitId) (u : CodeUnit) (g : Grade),
    s.program.units[id]? = some u ∧ u.submitted = true ∧ (s.gradeOf id).Advances g ∧
      t.grades = s.grades.setIfInBounds id g

theorem Update.refl (s : Session) : s.Update s :=
  ⟨rfl, Or.inl rfl⟩

/-- Every step advances one grade. -/
theorem Step.update {s t : Session} (h : s.Step t) : s.Update t := by
  refine ⟨h.sameTask.program, Or.inr ?_⟩
  cases h with
  | @opened id u hsubject hfresh _ =>
      refine ⟨id, u, _, hsubject.unit, hsubject.submitted, ?_, rfl⟩
      rw [hfresh]
      exact .looked (by decide)
  | @waiting id u _ hsubject hfresh _ _ =>
      refine ⟨id, u, _, hsubject.unit, hsubject.submitted, ?_, rfl⟩
      rw [hfresh]
      exact .looked (by decide)
  | @decided id u g _ hsubject htemp hverdict _ =>
      exact ⟨id, u, g, hsubject.unit, hsubject.submitted,
        Grade.advances_of_isFinal htemp hverdict.isFinal, rfl⟩

/-- What an update makes of a grade. -/
theorem Update.gradeOf_cases {s t : Session} (h : s.Update t) (j : UnitId) :
    t.gradeOf j = s.gradeOf j ∨ (s.gradeOf j).Advances (t.gradeOf j) ∧
      ∃ u, s.program.units[j]? = some u ∧ u.submitted = true := by
  rcases h.table with hsame | ⟨id, u, g, hu, hsub, hadvances, hwritten⟩
  · exact Or.inl (by rw [gradeOf, gradeOf, hsame])
  · rw [gradeOf, hwritten]
    by_cases hj : j = id
    · subst hj
      by_cases hlt : j < s.grades.size
      · rw [gradeAt_set_self g hlt]
        exact Or.inr ⟨hadvances, u, hu, hsub⟩
      · -- Out of the table nothing is written.
        rw [Array.setIfInBounds_eq_of_size_le (Nat.le_of_not_lt hlt)]
        exact Or.inl rfl
    · exact Or.inl (gradeAt_set_of_ne g hj)

/-- What holds between a state of a run and any later one. -/
structure Later (s t : Session) : Prop where
  program : t.program = s.program
  /-- A final grade is never overwritten. -/
  final : ∀ id, (s.gradeOf id).isFinal = true → t.gradeOf id = s.gradeOf id
  /-- No unit becomes unchecked again. -/
  looked : ∀ id, s.gradeOf id ≠ .unchecked → t.gradeOf id ≠ .unchecked
  /-- The grade of an external unit does not change. -/
  foreign : ∀ id u, s.program.units[id]? = some u → u.submitted = false →
    t.gradeOf id = s.gradeOf id

theorem Later.refl (s : Session) : s.Later s :=
  ⟨rfl, fun _ _ => rfl, fun _ h => h, fun _ _ _ _ => rfl⟩

theorem Later.trans {s t r : Session} (h : s.Later t) (h' : t.Later r) : s.Later r := by
  refine ⟨h'.program.trans h.program, fun id hfinal => ?_, fun id hlooked => ?_,
    fun id u hu hforeign => ?_⟩
  · have hkept := h.final id hfinal
    rw [h'.final id (by rw [hkept, hfinal]), hkept]
  · exact h'.looked id (h.looked id hlooked)
  · rw [h'.foreign id u (by rw [h.program]; exact hu) hforeign, h.foreign id u hu hforeign]

theorem Update.later {s t : Session} (h : s.Update t) : s.Later t := by
  refine ⟨h.program, fun id hfinal => ?_, fun id hlooked => ?_, fun id u hu hforeign => ?_⟩
  · refine (h.gradeOf_cases id).resolve_right fun ⟨hadvances, _⟩ => ?_
    rw [Grade.isFinal, hadvances.isTemporary] at hfinal
    exact absurd hfinal (by decide)
  · rcases h.gradeOf_cases id with hsame | ⟨hadvances, _⟩
    · rw [hsame]
      exact hlooked
    · exact hadvances.ne_unchecked
  · refine (h.gradeOf_cases id).resolve_right fun ⟨_, v, hv, hsub⟩ => ?_
    rw [Option.some.inj (hv.symm.trans hu), hforeign] at hsub
    exact absurd hsub (by decide)

theorem Steps.later {n : Nat} {s t : Session} (h : Steps n s t) : s.Later t := by
  induction h with
  | refl s => exact .refl s
  | tail _ hstep ih => exact ih.trans hstep.update.later

/-- The states from `s` to `t`, without `s`, with an update before each of
    them. -/
inductive Path : Session → List Session → Session → Prop
  | nil (s : Session) : Path s [] s
  | cons {s t r : Session} {visited : List Session} (update : s.Update t)
      (rest : Path t visited r) : Path s (t :: visited) r

namespace Path

theorem append {s t r : Session} {visited visited' : List Session} (h : Path s visited t)
    (h' : Path t visited' r) : Path s (visited ++ visited') r := by
  induction h with
  | nil _ => exact h'
  | cons hupdate _ ih => exact .cons hupdate (ih h')

theorem later {s t r : Session} {visited : List Session} (h : Path s visited t)
    (hr : r ∈ visited) : s.Later r := by
  induction h with
  | nil _ => exact absurd hr List.not_mem_nil
  | cons hupdate _ ih =>
      rcases List.mem_cons.1 hr with rfl | hr
      · exact hupdate.later
      · exact hupdate.later.trans (ih hr)

/-- What holds from one state to the next holds all the way. -/
theorem pairwise {s t : Session} {visited : List Session} (h : Path s visited t) :
    (s :: visited).Pairwise Later := by
  induction h with
  | nil s => exact List.pairwise_singleton _ s
  | cons hupdate hrest ih =>
      exact List.pairwise_cons.2 ⟨fun r hr => (Path.cons hupdate hrest).later hr, ih⟩

end Path

end Session

namespace Sweep

open Session (Path)

/-- A pass of a rule along a list, with the state after each application. -/
def traced {α : Type} (rule : Sweep → α → Except Error Sweep) (w : Sweep) :
    List α → Except Error (List Session × Sweep)
  | [] => .ok ([], w)
  | a :: rest => do
    let next ← rule w a
    let (visited, last) ← next.traced rule rest
    return (next.session :: visited, last)

/-- A pass leaves a trail of updates if its rule makes them. The trail ends
    where the pass ends. -/
theorem traced_path {α : Type} {rule : Sweep → α → Except Error Sweep}
    (inv : List α → Session → Prop)
    (hrule : ∀ (a : α) (rest : List α) (w : Sweep), inv (a :: rest) w.session →
      ∃ w', rule w a = .ok w' ∧ w.session.Update w'.session ∧ inv rest w'.session)
    (l : List α) (w : Sweep) (hinv : inv l w.session) :
    ∃ visited w', w.traced rule l = .ok (visited, w') ∧ l.foldlM rule w = .ok w' ∧
      Path w.session visited w'.session := by
  induction l generalizing w with
  | nil => exact ⟨[], w, rfl, rfl, .nil _⟩
  | cons a rest ih =>
      rcases hrule a rest w hinv with ⟨v, hv, hupdate, hnext⟩
      rcases ih v hnext with ⟨visited, w', htraced, hfold, hpath⟩
      refine ⟨v.session :: visited, w', ?_, ?_, .cons hupdate hpath⟩
      · rw [traced, hv]
        change (v.traced rule rest >>= _) = _
        rw [htraced]
        rfl
      · rw [List.foldlM_cons, hv]
        exact hfold

/-- The trail of a rule that cannot fail. -/
theorem traced_path_of_total {α : Type} {rule : Sweep → α → Sweep}
    (inv : List α → Session → Prop)
    (hrule : ∀ (a : α) (rest : List α) (w : Sweep), inv (a :: rest) w.session →
      w.session.Update (rule w a).session ∧ inv rest (rule w a).session)
    (l : List α) (w : Sweep) (hinv : inv l w.session) :
    ∃ visited, w.traced (fun w a => .ok (rule w a)) l = .ok (visited, l.foldl rule w) ∧
      Path w.session visited (l.foldl rule w).session := by
  rcases traced_path inv (fun a rest w h => ⟨_, rfl, hrule a rest w h⟩) l w hinv with
    ⟨visited, w', htraced, hfold, hpath⟩
  rw [foldl_eq_of_foldlM hfold]
  exact ⟨visited, htraced, hpath⟩

theorem judgeLocally_update {w : Sweep} (hs : w.session.Current) {u : CodeUnit}
    (hu : Registered w.session u) : w.session.Update (w.judgeLocally u).session := by
  by_cases hfresh : u.submitted = true ∧ w.session.gradeOf u.id = .unchecked
  · rw [judgeLocally, if_pos (by simpa using hfresh)]
    exact (Session.judgeLocally_step hs hu hfresh.1 hfresh.2).update
  · rw [judgeLocally, if_neg (by simpa using hfresh)]
    exact .refl _

theorem propagate_update {w w' : Sweep} (hs : w.session.Current) {u : CodeUnit}
    (hu : Registered w.session u) (h : w.propagate u = .ok w') :
    w.session.Update w'.session := by
  by_cases hwaits : w.session.gradeOf u.id = .unsure ∧ u.id ∉ w.session.pending
  · rw [propagate, if_pos hwaits] at h
    rcases exists_of_map_eq_ok h with ⟨v, hv, rfl⟩
    -- The rule has two ways to succeed, and `v` is the result of one of them.
    rcases Session.propagate_cases hs hu hwaits.1 hwaits.2 with ⟨heq, _⟩ | ⟨t, heq, hstep⟩
    · rw [← Except.ok.inj (heq.symm.trans hv)]
      exact .refl _
    · rw [← Except.ok.inj (heq.symm.trans hv)]
      exact hstep.update
  · rw [propagate, if_neg hwaits] at h
    rw [← Except.ok.inj h]
    exact .refl _

theorem resolve_update {w : Sweep} (hs : w.session.Current) {id : UnitId}
    (hid : id ∈ w.session.pending) : w.session.Update (w.resolve id).session := by
  rcases hs.opened_of_pending hid with ⟨u, hsubject, _, _⟩
  have heq := hs.id_eq hsubject.unit
  subst heq
  have hrule : w.resolve u.id = w.andThen (w.session.resolve u) := by
    rw [resolve, hsubject.unit]
  rw [hrule]
  rcases Session.resolve_cases hs hsubject.unit hid with ⟨hres, _⟩ | ⟨t, hres, hstep⟩
  · rw [hres]
    exact .refl _
  · rw [hres]
    exact hstep.update

theorem locals_path {w : Sweep} (hw : w.session.Current) :
    ∃ visited, w.traced (fun w u => .ok (w.judgeLocally u)) w.session.program.units.toList =
      .ok (visited, w.locals) ∧ Path w.session visited w.locals.session := by
  refine traced_path_of_total LocalsInv (fun u rest v hinv => ⟨?_, ?_⟩) _ w
    ⟨hw, fun _ hu => hw.wellFormed.mem_units.1 hu, fun _ _ hu _ _ => hw.mem_units hu⟩
  · exact judgeLocally_update hinv.current (hinv.registered u List.mem_cons_self)
  · exact (judgeLocally_follows u rest v hinv).2

theorem calls_path {w : Sweep} (hw : w.session.Current) :
    ∃ visited w', w.traced propagate w.session.program.units.toList = .ok (visited, w') ∧
      w.calls = .ok w' ∧ Path w.session visited w'.session := by
  refine traced_path CallsInv (fun u rest v hinv => ?_) _ w
    ⟨hw, fun _ hu => hw.wellFormed.mem_units.1 hu⟩
  rcases propagate_follows u rest v hinv with ⟨v', hv', _, hrest⟩
  have hu := hinv.registered u List.mem_cons_self
  exact ⟨v', hv', propagate_update hinv.current hu hv', hrest⟩

theorem dispatches_path {w : Sweep} (hw : w.session.Current) :
    ∃ visited, w.traced (fun w id => .ok (w.resolve id)) w.session.pending =
      .ok (visited, w.dispatches) ∧ Path w.session visited w.dispatches.session := by
  refine traced_path_of_total DispatchesInv (fun id rest v hinv => ⟨?_, ?_⟩) _ w
    ⟨hw, hw.pending_sorted.imp fun h => Nat.ne_of_lt h, fun _ h => h⟩
  · exact resolve_update hinv.current (hinv.pending id List.mem_cons_self)
  · exact (resolve_follows id rest v hinv).2

end Sweep

namespace Session

/-- One round, with its trail. -/
def tracedRound (s : Session) : Except Error (List Session × Sweep) := do
  let start : Sweep := { session := s }
  let (first, w) ← start.traced (fun w u => .ok (w.judgeLocally u)) s.program.units.toList
  let (second, w) ← w.traced Sweep.propagate w.session.program.units.toList
  let (third, w) ← w.traced (fun w id => .ok (w.resolve id)) w.session.pending
  return (first ++ second ++ third, w)

/-- A round leaves a trail of updates, which ends where the round ends. -/
theorem tracedRound_path {s : Session} (hs : s.Current) :
    ∃ visited w, s.tracedRound = .ok (visited, w) ∧ s.round = .ok w ∧
      Path s visited w.session := by
  -- Each pass starts from a session in which the one before has kept the laws.
  have hlocals := (Sweep.locals_follows (w := { session := s }) hs).1.current hs
  rcases Sweep.locals_path (w := { session := s }) hs with ⟨first, htraced, hfirst⟩
  rcases Sweep.calls_path hlocals with ⟨second, v, htraced', hcalls, hsecond⟩
  rcases Sweep.calls_follows hlocals with ⟨v', hcalls', hfollows⟩
  rw [Except.ok.inj (hcalls'.symm.trans hcalls)] at hfollows
  rcases Sweep.dispatches_path (hfollows.current hlocals) with ⟨third, htraced'', hthird⟩
  refine ⟨first ++ second ++ third, v.dispatches, ?_, ?_, (hfirst.append hsecond).append hthird⟩
  · -- The three passes are opened one after another.
    simp only [tracedRound, htraced, htraced', htraced'', bind, Except.bind]
    rfl
  · rw [round, hcalls]
    rfl

/-- At most `bound` rounds, until one of them changes nothing, with their
    trail. -/
def tracedRounds (s : Session) : (bound : Nat) → Except Error (List Session × Progress)
  | 0 => .ok ([], { session := s, rounds := 0, converged := false })
  | bound + 1 => do
    let (visited, next) ← s.tracedRound
    if next.changed then
      let (later, rest) ← next.session.tracedRounds bound
      return (visited ++ later, { rest with rounds := rest.rounds + 1 })
    else
      return (visited, { session := next.session, rounds := 1, converged := true })

/-- The rounds of a run leave a trail of updates, which ends where they end. -/
theorem tracedRounds_path {s : Session} (hs : s.Current) (bound : Nat) :
    ∃ visited r, s.tracedRounds bound = .ok (visited, r) ∧ s.iterate bound = .ok r ∧
      Path s visited r.session := by
  induction bound generalizing s with
  | zero => exact ⟨[], _, rfl, rfl, .nil s⟩
  | succ bound ih =>
      rcases tracedRound_path hs with ⟨visited, w, htraced, hw, hpath⟩
      rcases round_spec hs with ⟨w', n, hw', hsteps, _⟩
      rw [Except.ok.inj (hw'.symm.trans hw)] at hsteps
      rw [iterate_succ hw, tracedRounds, htraced]
      change ∃ _ _, (if w.changed = true then _ else _) = _ ∧ _
      by_cases hchanged : w.changed = true
      · rcases ih (hsteps.current hs) with ⟨later, r, hlater, hr, hrest⟩
        rw [if_pos hchanged, if_pos hchanged, hlater, hr]
        exact ⟨visited ++ later, _, rfl, rfl, hpath.append hrest⟩
      · rw [if_neg hchanged, if_neg hchanged]
        exact ⟨visited, _, rfl, rfl, hpath⟩

/-- A run with fewer rounds has found out nothing that a run with more rounds
    does not find out as well. -/
theorem limited_run_agrees {s : Session} (hs : s.Untouched) (hlawful : s.Lawful)
    (hfrozen : s.program.frozen = false) {k k' : Nat} (h : k ≤ k') :
    ∃ t t' summary summary', (s.limitRounds k).run = .ok (t, summary) ∧
      (s.limitRounds k').run = .ok (t', summary') ∧ Agrees t.gradeOf t'.gradeOf := by
  have hstart := hs.resumed hlawful hfrozen
  rcases hstart.step hlawful k with ⟨r, t, summary, hrun, hstep⟩
  rcases hstart.step hlawful k' with ⟨r', t', summary', hrun', hstep'⟩
  refine ⟨t, t', summary, summary', hrun, hrun', ?_⟩
  -- The longer run goes on with the rounds of the shorter one.
  have hmax : 0 + max k' 1 = 0 + max k 1 + (max k' 1 - max k 1) := by omega
  have hrest := hstep'.rounds
  rw [hmax, afterRounds_add hstep.rounds] at hrest
  rcases afterRounds_spec (hstep.current hlawful) (max k' 1 - max k 1) with ⟨q, n, hq, hsteps⟩
  rw [← Except.ok.inj (hrest.symm.trans hq)] at hsteps
  have hlater := hsteps.later.final
  simp only [gradeOf, ← hstep.tables.1, ← hstep'.tables.1] at hlater
  exact hlater

/-- Grades only advance. Whatever has happened to a session, a run of it goes
    through a trail of states, from its start to its end, such that from one
    state to the next at most one grade is written, of a submitted unit, and
    advances. So over the whole run no final grade is overwritten, no unit
    becomes unchecked again, and external units keep their grades. Of two first
    runs with different limits, the longer one keeps the final grades of the
    shorter one. -/
theorem grades_advance (axis : Axis) (catalog : Catalog) (scope : List String) :
    (∀ ops : List Operation, ∃ s visited r t summary,
      (start axis catalog scope).performAll ops = .ok s ∧
      s.prepared.tracedRounds s.roundBound = .ok (visited, r) ∧
      s.prepared.iterate s.roundBound = .ok r ∧
      s.run = .ok (t, summary) ∧ t.grades = r.session.grades ∧
      Path s.prepared visited r.session ∧ (s.prepared :: visited).Pairwise Later) ∧
    ∀ (ds : List Declaration) (k k' : Nat), k ≤ k' →
      let s := (start axis catalog scope).declareAll ds
      ∃ t t' summary summary', (s.limitRounds k).run = .ok (t, summary) ∧
        (s.limitRounds k').run = .ok (t', summary') ∧
        ∀ id, (t.gradeOf id).isFinal = true → t'.gradeOf id = t.gradeOf id := by
  refine ⟨fun ops => ?_, fun ds k k' hk => ?_⟩
  · rcases performAll_induction (P := fun _ => True) (start_lawful axis catalog scope) trivial
      (fun _ _ _ _ _ _ => trivial) ops with ⟨s, hperform, hs, _⟩
    rcases tracedRounds_path (prepared_current hs) s.roundBound with
      ⟨visited, r, htraced, hr, hpath⟩
    rcases run_spec hs with ⟨r', n, hr', _, _, hrun⟩
    rw [← Except.ok.inj (hr.symm.trans hr')] at hrun
    refine ⟨s, visited, r, _, _, hperform, htraced, hr, hrun, ?_, hpath, hpath.pairwise⟩
    rw [r.finish_eq]
  · have hs := start_declareAll axis catalog scope ds
    exact limited_run_agrees (declareAll_untouched axis catalog scope ds) hs.lawful hs.frozen hk

/-- The first round settles the second unit of the chain, and no later round
    changes it. -/
theorem grades_advance_callChain :
    let s := (start .purity {} []).declareAll callChain
    ∃ t t' summary summary', (s.limitRounds 1).run = .ok (t, summary) ∧
      (s.limitRounds 3).run = .ok (t', summary') ∧ t.gradeOf 0 = .unsure ∧
      t.gradeOf 1 = .strict ∧ t'.gradeOf 1 = .strict := by
  intro s
  rcases (grades_advance .purity {} []).2 callChain 1 3 (by decide) with
    ⟨t, t', summary, summary', hrun, hrun', hfinal⟩
  have hgrades : (fun x => (x.1.gradeOf 0, x.1.gradeOf 1)) <$> (s.limitRounds 1).run =
      .ok (.unsure, .strict) := by decide +kernel
  rw [hrun] at hgrades
  rcases Prod.mk.inj (Except.ok.inj hgrades) with ⟨hunsure, hstrict⟩
  have hkept := hfinal 1 (by rw [hstrict]; rfl)
  exact ⟨t, t', summary, summary', hrun, hrun', hunsure, hstrict, hkept.trans hstrict⟩

end Session

end CoreShell
