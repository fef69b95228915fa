import CoreShell.Proofs.Step

/-!
# Rounds and Iterations

A round is three passes over lists of units, and each pass is a fold of one
rule. `Follows` is what one application of a rule, one pass and one round have
in common: a chain of steps that raises the flag exactly if it is not empty,
and a condition that holds of a session that was left alone. For a round that
condition is `Stable`: no rule has anything left to do.

The second half counts. The first round looks at every submitted unit, and from
then on the only steps left are verdicts on unsure units, of which each takes
one away. So every round that changes something leaves fewer unsure units than
it found, and a program has only so many units.

## Main definitions

* `Session.Looked`: Every submitted unit has been looked at.
* `Session.Stable`: No rule has anything left to do.
* `Sweep.Follows`: How a sweep goes on.

## Theorems

* `round_spec`: A round is a chain of steps, and a quiet one means stability.
* `Step.countOf_unsure`: Once all is looked at, a step decides an unsure unit.
* `iterate_spec`: Iterating rounds is a chain of steps that stops when stable.
* `iterate_looked`: One round is enough to look at every unit.
* `iterate_converges`: Two rounds more than there are units are enough.
-/

namespace CoreShell

namespace Session

/-- Every submitted unit has been looked at. -/
def Looked (s : Session) : Prop :=
  ∀ (id : UnitId) (u : CodeUnit), s.program.units[id]? = some u → u.submitted = true →
    s.gradeOf id ≠ .unchecked

/-- No rule has anything left to do. -/
structure Stable (s : Session) : Prop where
  looked : s.Looked
  undecided : ∀ (id : UnitId) (u : CodeUnit), s.program.units[id]? = some u →
    s.gradeOf id = .unsure → ∀ g, ¬ UnitVerdict s.axis s.program u s.gradeOf g

theorem judgeLocally_ne_unchecked {s : Session} {u : CodeUnit} (h : u.id < s.grades.size) :
    (s.judgeLocally u).gradeOf u.id ≠ .unchecked := by
  have hset : ∀ g, gradeAt (s.grades.setIfInBounds u.id g) u.id = g :=
    fun g => gradeAt_set_self g h
  rw [judgeLocally]
  rcases hjudge : s.axis.judge s.program u with finding | _ | floor
  · simp [gradeOf, report, grade, hset]
  · simp [gradeOf, grade, hset]
  · by_cases hcalls : u.hasCalls = true
    · simp [gradeOf, grade, hset, hcalls]
    · simp only [if_neg hcalls, gradeOf, grade, hset]
      rcases judge_provisional hjudge with h | h <;> rw [h] <;> decide

/-- A step makes no unit unchecked. -/
theorem Step.unchecked {s t : Session} (hs : s.Current) (h : s.Step t) {id : UnitId}
    (hgrade : t.gradeOf id = .unchecked) : s.gradeOf id = .unchecked := by
  rcases h.gradeOf_cases hs id with hsame | hunsure | ⟨u, _, hverdict⟩
  · exact hsame.symm.trans hgrade
  · exact absurd (hunsure.symm.trans hgrade) (by decide)
  · exact absurd hverdict.isFinal (by rw [hgrade]; decide)

theorem Step.looked {s t : Session} (hs : s.Current) (h : s.Step t) (hlooked : s.Looked) :
    t.Looked := by
  intro id u hu hsub hgrade
  rw [h.sameTask.program] at hu
  exact hlooked id u hu hsub (h.unchecked hs hgrade)

theorem Steps.looked {n : Nat} {s t : Session} (h : Steps n s t) (hs : s.Current)
    (hlooked : s.Looked) : t.Looked := by
  induction h with
  | refl _ => exact hlooked
  | tail hsteps hstep ih => exact hstep.looked (hsteps.current hs) (ih hs hlooked)

end Session

namespace Sweep

open Session (Steps)

/-- A pass of a rule that cannot fail is a plain fold. -/
theorem foldl_eq_of_foldlM {α : Type} {rule : Sweep → α → Sweep} {l : List α} {w w' : Sweep}
    (h : l.foldlM (fun w a => (.ok (rule w a) : Except Error Sweep)) w = .ok w') :
    l.foldl rule w = w' := by
  have hpure := List.foldlM_pure (m := Except Error) (f := rule) (b := w) (l := l)
  exact Except.ok.inj (hpure.symm.trans h)

/-- A sweep goes on by a chain of steps that raises the flag if it is not
    empty. If the flag is still down, the session was left alone because it
    has a property. -/
structure Follows (quiet : Session → Prop) (w w' : Sweep) : Prop where
  steps : ∃ n, Steps n w.session w'.session ∧ w'.changed = (w.changed || decide (0 < n))
  quiet : w'.changed = false → w'.session = w.session ∧ quiet w.session

namespace Follows

theorem refl {quiet : Session → Prop} {w : Sweep} (h : quiet w.session) : Follows quiet w w :=
  ⟨⟨0, .refl _, by simp⟩, fun _ => ⟨rfl, h⟩⟩

theorem step {w : Sweep} {t : Session} (h : w.session.Step t) (quiet : Session → Prop) :
    Follows quiet w { session := t, changed := true } :=
  ⟨⟨1, .tail (.refl _) h, by simp⟩, fun hc => absurd hc (by simp)⟩

theorem trans {quiet quiet' : Session → Prop} {v w r : Sweep} (h : Follows quiet v w)
    (h' : Follows quiet' w r) : Follows (fun s => quiet s ∧ quiet' s) v r := by
  rcases h.steps with ⟨m, hm, hflag⟩
  rcases h'.steps with ⟨n, hn, hflag'⟩
  refine ⟨⟨m + n, hm.trans hn, ?_⟩, fun hc => ?_⟩
  · rw [hflag', hflag, Bool.or_assoc, ← Bool.decide_or]
    congr 2
    exact propext (by omega)
  · -- A flag that is down at the end was down all the way, so nothing has moved.
    rcases h'.quiet hc with ⟨heq', hquiet'⟩
    rw [hc, Eq.comm, Bool.or_eq_false_iff] at hflag'
    rcases h.quiet hflag'.1 with ⟨heq, hquiet⟩
    rw [heq] at hquiet' heq'
    exact ⟨heq', hquiet, hquiet'⟩

theorem mono {quiet quiet' : Session → Prop} {w w' : Sweep} (h : Follows quiet w w')
    (himp : quiet w.session → quiet' w.session) : Follows quiet' w w' :=
  ⟨h.steps, fun hc => ⟨(h.quiet hc).1, himp (h.quiet hc).2⟩⟩

theorem current {quiet : Session → Prop} {w w' : Sweep} (h : Follows quiet w w')
    (hw : w.session.Current) : w'.session.Current := by
  rcases h.steps with ⟨n, hn, _⟩
  exact hn.current hw

theorem looked {quiet : Session → Prop} {w w' : Sweep} (h : Follows quiet w w')
    (hw : w.session.Current) (hlooked : w.session.Looked) : w'.session.Looked := by
  rcases h.steps with ⟨n, hn, _⟩
  exact hn.looked hw hlooked

/-- A pass goes on as its rule does. The invariant may speak of the entries the
    pass has yet to visit. -/
theorem foldlM {α : Type} (rule : Sweep → α → Except Error Sweep) {quiet : α → Session → Prop}
    {inv : List α → Session → Prop}
    (hrule : ∀ (a : α) (rest : List α) (w : Sweep), inv (a :: rest) w.session →
      ∃ w', rule w a = .ok w' ∧ Follows (quiet a) w w' ∧ inv rest w'.session)
    (l : List α) (w : Sweep) (hinv : inv l w.session) :
    ∃ w', l.foldlM rule w = .ok w' ∧ Follows (fun s => ∀ a ∈ l, quiet a s) w w' ∧
      inv [] w'.session := by
  induction l generalizing w with
  | nil => exact ⟨w, rfl, refl (by simp), hinv⟩
  | cons a rest ih =>
      rcases hrule a rest w hinv with ⟨v, hv, hfollows, hnext⟩
      rcases ih v hnext with ⟨w', hw', hrest, hlast⟩
      refine ⟨w', ?_, ?_, hlast⟩
      · rw [List.foldlM_cons, hv]
        exact hw'
      · exact (hfollows.trans hrest).mono fun h => List.forall_mem_cons.2 h

/-- A pass of a rule that cannot fail. -/
theorem foldl {α : Type} (rule : Sweep → α → Sweep) {quiet : α → Session → Prop}
    {inv : List α → Session → Prop}
    (hrule : ∀ (a : α) (rest : List α) (w : Sweep), inv (a :: rest) w.session →
      Follows (quiet a) w (rule w a) ∧ inv rest (rule w a).session)
    (l : List α) (w : Sweep) (hinv : inv l w.session) :
    Follows (fun s => ∀ a ∈ l, quiet a s) w (l.foldl rule w) ∧ inv [] (l.foldl rule w).session := by
  rcases foldlM (fun w a => .ok (rule w a)) (fun a rest w h => ⟨_, rfl, hrule a rest w h⟩) l w hinv
    with ⟨w', hw', hfollows⟩
  rw [foldl_eq_of_foldlM hw']
  exact hfollows

end Follows

/-- The program has a unit where the unit says. -/
def Registered (s : Session) (u : CodeUnit) : Prop :=
  s.program.units[u.id]? = some u

/-- What stays to do in the first pass of a round. -/
structure LocalsInv (rest : List CodeUnit) (s : Session) : Prop where
  current : s.Current
  registered : ∀ u ∈ rest, Registered s u
  looked : ∀ (id : UnitId) (u : CodeUnit), s.program.units[id]? = some u → u.submitted = true →
    s.gradeOf id = .unchecked → u ∈ rest

theorem judgeLocally_follows (u : CodeUnit) (rest : List CodeUnit) (w : Sweep)
    (hinv : LocalsInv (u :: rest) w.session) :
    Follows (fun s => u.submitted = true → s.gradeOf u.id ≠ .unchecked) w (w.judgeLocally u) ∧
      LocalsInv rest (w.judgeLocally u).session := by
  have hu := hinv.registered u List.mem_cons_self
  have hrest : ∀ v ∈ rest, Registered w.session v :=
    fun v hv => hinv.registered v (List.mem_cons_of_mem _ hv)
  by_cases hfresh : u.submitted = true ∧ w.session.gradeOf u.id = .unchecked
  · -- The unit is looked at now, and no other becomes unchecked again.
    have heq : w.judgeLocally u = { session := w.session.judgeLocally u, changed := true } := by
      rw [judgeLocally, if_pos (by simpa using hfresh)]
    have hstep := Session.judgeLocally_step hinv.current hu hfresh.1 hfresh.2
    rw [heq]
    refine ⟨.step hstep _, hstep.current hinv.current, fun v hv => ?_, fun id v hv hsub hg => ?_⟩
    · rw [Registered, hstep.sameTask.program]
      exact hrest v hv
    · rw [hstep.sameTask.program] at hv
      have hmem := hinv.looked id v hv hsub (hstep.unchecked hinv.current hg)
      refine (List.mem_cons.1 hmem).resolve_left fun hvu => ?_
      rw [hvu] at hv
      rw [← hinv.current.id_eq hv] at hg
      exact Session.judgeLocally_ne_unchecked (hinv.current.id_lt_grades hu) hg
  · -- Nothing happens, and the unit was none of those still to look at.
    have heq : w.judgeLocally u = w := by
      rw [judgeLocally, if_neg (by simpa using hfresh)]
    rw [heq]
    refine ⟨.refl fun hsub hg => hfresh ⟨hsub, hg⟩, hinv.current, hrest, fun id v hv hsub hg => ?_⟩
    refine (List.mem_cons.1 (hinv.looked id v hv hsub hg)).resolve_left fun hvu => ?_
    rw [hvu] at hv hsub
    rw [← hinv.current.id_eq hv] at hg
    exact hfresh ⟨hsub, hg⟩

/-- The first pass looks at every submitted unit. -/
theorem locals_follows {w : Sweep} (hw : w.session.Current) :
    Follows Session.Looked w w.locals ∧ w.locals.session.Looked := by
  have hinv : LocalsInv w.session.program.units.toList w.session :=
    ⟨hw, fun _ hu => hw.wellFormed.mem_units.1 hu, fun _ _ hu _ _ => hw.mem_units hu⟩
  rcases Follows.foldl judgeLocally judgeLocally_follows _ w hinv with ⟨hfollows, hlast⟩
  refine ⟨hfollows.mono fun hquiet id u hu hsub hg => ?_, fun id u hu hsub hg => ?_⟩
  · rw [← hw.id_eq hu] at hg
    exact hquiet u (hw.mem_units hu) hsub hg
  · exact absurd (hlast.looked id u hu hsub hg) List.not_mem_nil

/-- A session without a verdict on a unit. -/
def NoVerdict (s : Session) (u : CodeUnit) : Prop :=
  ∀ g, ¬ UnitVerdict s.axis s.program u s.gradeOf g

/-- What stays to do in the second pass of a round. -/
structure CallsInv (rest : List CodeUnit) (s : Session) : Prop where
  current : s.Current
  registered : ∀ u ∈ rest, Registered s u

theorem propagate_follows (u : CodeUnit) (rest : List CodeUnit) (w : Sweep)
    (hinv : CallsInv (u :: rest) w.session) :
    ∃ w', w.propagate u = .ok w' ∧
      Follows (fun s => s.gradeOf u.id = .unsure → u.id ∉ s.pending → NoVerdict s u) w w' ∧
      CallsInv rest w'.session := by
  rcases hinv with ⟨hcurrent, hregistered⟩
  have hu := hregistered u List.mem_cons_self
  have hrest : ∀ v ∈ rest, Registered w.session v :=
    fun v hv => hregistered v (List.mem_cons_of_mem _ hv)
  by_cases hwaits : w.session.gradeOf u.id = .unsure ∧ u.id ∉ w.session.pending
  · rw [propagate, if_pos hwaits]
    -- The unit has the floor that the rule asks for, so the rule does not fail.
    rcases Session.propagate_cases hcurrent hu hwaits.1 hwaits.2 with
      ⟨heq, hnone⟩ | ⟨t, heq, hstep⟩
    · refine ⟨w, ?_, .refl fun _ _ => hnone, ⟨hcurrent, hrest⟩⟩
      rw [heq]
      simp [andThen, Except.map_ok]
    · refine ⟨{ session := t, changed := true }, ?_, .step hstep _,
        ⟨hstep.current hcurrent, fun v hv => ?_⟩⟩
      · rw [heq]
        simp [andThen, Except.map_ok]
      · rw [Registered, hstep.sameTask.program]
        exact hrest v hv
  · rw [propagate, if_neg hwaits]
    exact ⟨w, rfl, .refl fun hg hclosed => absurd ⟨hg, hclosed⟩ hwaits, ⟨hcurrent, hrest⟩⟩

/-- The second pass does not fail. -/
theorem calls_follows {w : Sweep} (hw : w.session.Current) :
    ∃ w', w.calls = .ok w' ∧ Follows (fun s => ∀ u ∈ s.program.units.toList,
      s.gradeOf u.id = .unsure → u.id ∉ s.pending → NoVerdict s u) w w' := by
  rcases Follows.foldlM propagate propagate_follows _ w
    ⟨hw, fun _ hu => hw.wellFormed.mem_units.1 hu⟩ with ⟨w', hw', hfollows, _⟩
  exact ⟨w', hw', hfollows.mono fun h => h⟩

theorem mem_resolve_pending {s : Session} {u : CodeUnit} {id : UnitId} (hne : id ≠ u.id)
    (h : id ∈ s.pending) : id ∈ (s.resolve u).session.pending := by
  rw [Session.resolve]
  split
  · exact h
  · simpa [hne] using h
  · simpa [hne, Session.report] using h

/-- What stays to do in the third pass of a round. -/
structure DispatchesInv (rest : List UnitId) (s : Session) : Prop where
  current : s.Current
  nodup : rest.Nodup
  pending : ∀ id ∈ rest, id ∈ s.pending

theorem resolve_follows (id : UnitId) (rest : List UnitId) (w : Sweep)
    (hinv : DispatchesInv (id :: rest) w.session) :
    Follows (fun s => ∀ u, s.program.units[id]? = some u → NoVerdict s u) w (w.resolve id) ∧
      DispatchesInv rest (w.resolve id).session := by
  rcases hinv with ⟨hcurrent, hnodup, hpending⟩
  rcases List.nodup_cons.1 hnodup with ⟨hnotMem, hrest⟩
  have hid := hpending id List.mem_cons_self
  rcases hcurrent.opened_of_pending hid with ⟨u, hsubject, _, _⟩
  have heq := hcurrent.id_eq hsubject.unit
  subst heq
  have hrule : w.resolve u.id = w.andThen (w.session.resolve u) := by
    rw [resolve, hsubject.unit]
  -- A unit stops being pending only at its own turn.
  have hstay : ∀ j ∈ rest, j ∈ (w.session.resolve u).session.pending := by
    intro j hj
    exact mem_resolve_pending (fun hc => hnotMem (hc ▸ hj)) (hpending j (List.mem_cons_of_mem _ hj))
  rw [hrule]
  rcases Session.resolve_cases hcurrent hsubject.unit hid with ⟨hres, hnone⟩ | ⟨t, hres, hstep⟩
  · rw [hres] at hstay ⊢
    have hsame : w.andThen { session := w.session } = w := by simp [andThen]
    rw [hsame]
    refine ⟨.refl fun v hv => ?_, hcurrent, hrest, hstay⟩
    rw [Option.some.inj (hv.symm.trans hsubject.unit)]
    exact hnone
  · rw [hres] at hstay ⊢
    have hflag : w.andThen { session := t, changed := true } =
        { session := t, changed := true } := by
      simp [andThen]
    rw [hflag]
    exact ⟨.step hstep _, hstep.current hcurrent, hrest, hstay⟩

theorem dispatches_follows {w : Sweep} (hw : w.session.Current) :
    Follows (fun s => ∀ id ∈ s.pending, ∀ u, s.program.units[id]? = some u → NoVerdict s u) w
      w.dispatches :=
  (Follows.foldl resolve resolve_follows _ w
    ⟨hw, hw.pending_sorted.imp fun h => Nat.ne_of_lt h, fun _ h => h⟩).1.mono fun h => h

end Sweep

namespace Session

/-- A round does not fail. It is a chain of steps after which every submitted
    unit has been looked at, and if it changes nothing, nothing is left to do. -/
theorem round_spec {s : Session} (hs : s.Current) :
    ∃ w n, s.round = .ok w ∧ Steps n s w.session ∧ (w.changed = true ↔ 0 < n) ∧
      w.session.Looked ∧ (w.changed = false → w.session.Stable) := by
  rcases Sweep.locals_follows (w := { session := s }) hs with ⟨hlocals, hlooked⟩
  have hcurrent := hlocals.current hs
  rcases Sweep.calls_follows hcurrent with ⟨v, hv, hcalls⟩
  have hdispatches := Sweep.dispatches_follows (hcalls.current hcurrent)
  -- The three passes in a row, with their conditions on a quiet round joined.
  have hround := (hlocals.trans hcalls).trans hdispatches
  rcases hround.steps with ⟨n, hn, hflag⟩
  refine ⟨v.dispatches, n, by rw [round, hv]; rfl, hn, by simp [hflag], ?_, fun hquiet => ?_⟩
  · exact hdispatches.looked (hcalls.current hcurrent) (hcalls.looked hcurrent hlooked)
  · rcases hround.quiet hquiet with ⟨heq, ⟨hlooked', hwaiting⟩, hopened⟩
    rw [heq]
    refine ⟨hlooked', fun id u hu hgrade => ?_⟩
    -- An unsure unit was up to the third pass if it is pending, else to the second.
    by_cases hpending : id ∈ s.pending
    · exact hopened id hpending u hu
    · rw [← hs.id_eq hu] at hgrade hpending
      exact hwaiting u (hs.mem_units hu) hgrade hpending

/-- Once all is looked at, a step decides an unsure unit. -/
theorem Step.countOf_unsure {s t : Session} (hs : s.Current) (hlooked : s.Looked)
    (h : s.Step t) : t.countOf .unsure + 1 = s.countOf .unsure := by
  cases h with
  | opened hsubject hfresh _ =>
      exact absurd hfresh (hlooked _ _ hsubject.unit hsubject.submitted)
  | waiting hsubject hfresh _ _ =>
      exact absurd hfresh (hlooked _ _ hsubject.unit hsubject.submitted)
  | @decided id u g log hsubject htemp hverdict _ =>
      have hunsure : s.gradeOf id = .unsure :=
        ((Grade.isTemporary_iff _).1 htemp).resolve_left
          (hlooked id u hsubject.unit hsubject.submitted)
      have hg : g ≠ .unsure := by
        intro hc
        exact absurd hverdict.isFinal (by rw [hc]; decide)
      have hlt : id < s.grades.toList.length := hs.id_lt_grades hsubject.unit
      have hat : s.grades.toList[id] = .unsure := by
        rw [gradeOf, gradeAt, Array.getD_eq_getD_getElem?,
          Array.getElem?_eq_getElem (hs.id_lt_grades hsubject.unit), Option.getD_some] at hunsure
        exact hunsure
      -- The unit is among those counted, so the subtraction below is a real one.
      have hpos : 0 < s.grades.toList.countP (· = .unsure) :=
        List.countP_pos_iff.2 ⟨_, List.getElem_mem hlt, by simp [hat]⟩
      simp only [countOf, conclude, Array.toList_setIfInBounds, List.countP_set hlt, hat, hg,
        decide_true, decide_false, if_true, Bool.false_eq_true, if_false]
      omega

theorem Steps.countOf_unsure {n : Nat} {s t : Session} (h : Steps n s t) (hs : s.Current)
    (hlooked : s.Looked) : t.countOf .unsure + n = s.countOf .unsure := by
  induction h with
  | refl _ => rfl
  | tail hsteps hstep ih =>
      have hlast := hstep.countOf_unsure (hsteps.current hs) (hsteps.looked hs hlooked)
      have hfirst := ih hs hlooked
      omega

theorem countOf_le (s : Session) (g : Grade) : s.countOf g ≤ s.grades.size :=
  List.countP_le_length

theorem iterate_succ {s : Session} {w : Sweep} (h : s.round = .ok w) (bound : Nat) :
    s.iterate (bound + 1) =
      if w.changed = true then
        (fun rest : Progress => { rest with rounds := rest.rounds + 1 }) <$> w.session.iterate bound
      else
        .ok { session := w.session, rounds := 1, converged := true } := by
  rw [iterate, h]
  by_cases hchanged : w.changed = true
  · simp only [Except.bind, bind, if_pos hchanged]
    cases w.session.iterate bound <;> rfl
  · simp only [Except.bind, bind, if_neg hchanged]
    rfl

/-- Iterating rounds does not fail. It is a chain of steps, and if it stops by
    itself, nothing is left to do. -/
theorem iterate_spec {s : Session} (hs : s.Current) (bound : Nat) :
    ∃ r n, s.iterate bound = .ok r ∧ Steps n s r.session ∧
      (r.converged = true → r.session.Stable) := by
  induction bound generalizing s with
  | zero => exact ⟨_, 0, rfl, .refl s, fun hc => absurd hc (by simp)⟩
  | succ bound ih =>
      rcases round_spec hs with ⟨w, n, hw, hn, _, _, hstable⟩
      rw [iterate_succ hw]
      by_cases hchanged : w.changed = true
      · rcases ih (hn.current hs) with ⟨r, m, hr, hm, hstable'⟩
        rw [if_pos hchanged, hr]
        exact ⟨_, n + m, rfl, hn.trans hm, hstable'⟩
      · rw [if_neg hchanged]
        exact ⟨_, n, rfl, hn, fun _ => hstable (by simpa using hchanged)⟩

/-- The first round looks at everything. -/
theorem iterate_looked {s : Session} (hs : s.Current) {bound : Nat} (hbound : 0 < bound)
    {r : Progress} (h : s.iterate bound = .ok r) : r.session.Looked := by
  rcases bound with _ | bound
  · exact absurd hbound (Nat.lt_irrefl 0)
  rcases round_spec hs with ⟨w, n, hw, hn, _, hlooked, _⟩
  rw [iterate_succ hw] at h
  by_cases hchanged : w.changed = true
  · rcases iterate_spec (hn.current hs) bound with ⟨r', m, hr', hm, _⟩
    rw [if_pos hchanged, hr'] at h
    rw [← Except.ok.inj h]
    exact hm.looked (hn.current hs) hlooked
  · rw [if_neg hchanged] at h
    rw [← Except.ok.inj h]
    exact hlooked

/-- Once all is looked at, one round more than there are unsure units is
    enough. -/
theorem iterate_converges_of_looked {s : Session} (hs : s.Current) (hlooked : s.Looked)
    {bound : Nat} (hbound : s.countOf .unsure < bound) :
    ∃ r, s.iterate bound = .ok r ∧ r.converged = true ∧ r.rounds ≤ s.countOf .unsure + 1 := by
  induction bound generalizing s with
  | zero => exact absurd hbound (Nat.not_lt_zero _)
  | succ bound ih =>
      rcases round_spec hs with ⟨w, n, hw, hn, hflag, hnext, _⟩
      rw [iterate_succ hw]
      by_cases hchanged : w.changed = true
      · -- A round that changes something decides an unsure unit.
        have hpos := hflag.1 hchanged
        have hcount := hn.countOf_unsure hs hlooked
        rcases ih (hn.current hs) hnext (by omega) with ⟨r, hr, hconverged, hrounds⟩
        rw [if_pos hchanged, hr]
        refine ⟨_, rfl, hconverged, ?_⟩
        change r.rounds + 1 ≤ _
        omega
      · rw [if_neg hchanged]
        exact ⟨_, rfl, rfl, Nat.le_add_left 1 _⟩

/-- Two rounds more than there are units are enough. -/
theorem iterate_converges {s : Session} (hs : s.Current) {bound : Nat}
    (hbound : s.program.units.size + 2 ≤ bound) :
    ∃ r, s.iterate bound = .ok r ∧ r.converged = true ∧
      r.rounds ≤ s.program.units.size + 2 := by
  rcases round_spec hs with ⟨w, n, hw, hn, _, hlooked, _⟩
  rcases bound with _ | bound
  · exact absurd hbound (by omega)
  rw [iterate_succ hw]
  by_cases hchanged : w.changed = true
  · -- The first round is only for looking; from here on the unsure units count.
    have hcurrent := hn.current hs
    have hcount := w.session.countOf_le .unsure
    rw [hcurrent.grades_size, hn.sameTask.program] at hcount
    rcases iterate_converges_of_looked hcurrent hlooked
      (show w.session.countOf .unsure < bound by omega) with ⟨r, hr, hconverged, hrounds⟩
    rw [if_pos hchanged, hr]
    refine ⟨_, rfl, hconverged, ?_⟩
    change r.rounds + 1 ≤ _
    omega
  · rw [if_neg hchanged]
    exact ⟨_, rfl, rfl, Nat.le_add_left 1 _⟩

end Session

end CoreShell
