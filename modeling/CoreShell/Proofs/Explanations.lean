import CoreShell.Proofs.Overriders
import CoreShell.Proofs.Recursion
import CoreShell.Proofs.RootCauses

/-!
# What Explanations Say

At the end of a run every unsure unit gets an explanation: the names of the undecided
units that it waits on, or that it has no known overriders. The second is said
whenever there is no name to give, and it takes an argument that this is right.

For a unit that is pending it is. The last pass of every round goes through the
pending units. Those that it decides have no body, so they override nothing, and a
unit that the pass has left behind has no more reason for a verdict afterwards than
when it was visited. So at the end of a round no pending unit has a verdict, and one
that waits on nothing has no overriders. It does not matter whether the run ends there
by itself.

For a unit that waits on its calls it is not. The second pass goes through the units
in order, and a call target may be decided after its caller was visited. The next round
would see it, but a run that is cut short does not get there.
`cut_short_run_blames_overriders` is such a run. Its message speaks of overriders of a
unit with a body.

## Main definitions

* `Session.HeldUpBy`: One unit waits on another that is undecided.
* `Session.Dispatched`: No pending unit has a verdict.
* `Session.Explains`: What a text about an unsure unit says, if it is given.

## Theorems

* `DispatchVerdict.congr`: Only the overriders of a unit count.
* `resolve_settled`: Deciding a pending unit gives no other one a verdict.
* `round_dispatched`: No pending unit has a verdict at the end of a round.
* `iterate_ends_with_round`: Every run ends with a round.
* `history_dispatched`: No pending unit has a verdict at the end of a run.
* `explanation_explains`: What is said of a unit.
* `explanations_say_what_holds`: What is said at the end of any run.
-/

namespace CoreShell

open Relation (TransGen)

/-- The dispatch rule looks at nothing but the overriders. -/
theorem DispatchVerdict.congr {p : Program} {u : CodeUnit} {grade grade' : UnitId → Grade}
    {g : Grade} (h : ∀ o ∈ p.overridersOf u, grade' o = grade o)
    (hv : DispatchVerdict p u grade g) : DispatchVerdict p u grade' g := by
  cases hv with
  | strict hsome hall => exact .strict hsome fun o ho => (h o ho).trans (hall o ho)
  | domain hall ho hdomain =>
      refine .domain (fun o ho => ?_) ho ((h _ ho).trans hdomain)
      rw [h o ho]
      exact hall o ho
  | failed ho hfails => exact .failed ho ((h _ ho).trans hfails)

/-- A unit without a body of its own overrides nothing. -/
theorem Program.not_mem_overridersOf {p : Program} (hp : p.WellFormed) (hindex : p.Indexed)
    {v : CodeUnit} (hv : p.units[v.id]? = some v) (hvirtual : p.dispatchesVirtually v = true)
    (u : CodeUnit) : v.id ∉ p.overridersOf u := by
  intro hmem
  rcases (p.mem_overridersOf hp hindex u v.id).1 hmem with ⟨w, hw, hconcrete, _⟩
  rw [hv, Option.some.injEq] at hw
  subst hw
  simp only [isConcrete, dispatchesVirtually, Bool.and_eq_true, Bool.or_eq_true,
    Bool.not_eq_true', decide_eq_true_eq] at hconcrete hvirtual
  rcases hvirtual with habstract | hinterface
  · rw [habstract] at hconcrete
    exact absurd hconcrete.1.2 (by decide)
  · exact hconcrete.2 hinterface

namespace Session

/-- No unit that waits on its overriders has a verdict. -/
def Dispatched (s : Session) : Prop :=
  ∀ id ∈ s.pending, ∀ u, s.program.units[id]? = some u → Sweep.NoVerdict s u

/-- The dispatch rule leaves the session alone or decides the unit. -/
theorem resolve_concludes {s : Session} (hs : s.Current) {u : CodeUnit}
    (hu : s.program.units[u.id]? = some u) (hpending : u.id ∈ s.pending) :
    (s.resolve u).session = s ∧ Sweep.NoVerdict s u ∨
      ∃ g log, (s.resolve u).session = s.conclude u.id g log := by
  rcases resolve_cases hs hu hpending with ⟨heq, hnone⟩ | ⟨t, heq, _⟩
  · exact Or.inl ⟨by rw [heq], hnone⟩
  · rw [resolve] at heq ⊢
    split at heq
    · exact absurd (congrArg Sweep.changed heq) (by simp)
    · exact Or.inr ⟨_, s.log, rfl⟩
    · exact Or.inr ⟨_, _, rfl⟩

end Session

namespace Sweep

/-- What stays to do in the third pass of a round, and what is done. -/
structure SettledInv (rest : List UnitId) (s : Session) : Prop where
  dispatches : DispatchesInv rest s
  indexed : s.program.Indexed
  settled : ∀ id ∈ s.pending, id ∉ rest → ∀ u, s.program.units[id]? = some u → NoVerdict s u

/-- Deciding a pending unit gives no other one a verdict. -/
theorem resolve_settled (id : UnitId) (rest : List UnitId) (w : Sweep)
    (hinv : SettledInv (id :: rest) w.session) :
    Follows (fun s => ∀ u, s.program.units[id]? = some u → NoVerdict s u) w (w.resolve id) ∧
      SettledInv rest (w.resolve id).session := by
  rcases resolve_follows id rest w hinv.dispatches with ⟨hfollows, hnext⟩
  have hcurrent := hinv.dispatches.current
  have hid := hinv.dispatches.pending id List.mem_cons_self
  rcases hcurrent.opened_of_pending hid with ⟨u, hsubject, _, hjudge⟩
  have heq := hcurrent.id_eq hsubject.unit
  subst heq
  have hsession : (w.resolve u.id).session = (w.session.resolve u).session := by
    rw [resolve, hsubject.unit]
    rfl
  refine ⟨hfollows, hnext, ?_, ?_⟩
  · rcases hfollows.steps with ⟨n, hsteps, _⟩
    rw [hsteps.sameTask.program]
    exact hinv.indexed
  rw [hsession]
  intro j hj hrest v hv
  rcases Session.resolve_concludes hcurrent hsubject.unit hid with ⟨hsame, hnone⟩ | ⟨g, log, hsame⟩
  · rw [hsame] at hj hv ⊢
    by_cases hju : j = u.id
    · rw [hju, hsubject.unit, Option.some.injEq] at hv
      rw [← hv]
      exact hnone
    · exact hinv.settled j hj (by simp [hju, hrest]) v hv
  · rw [hsame] at hj hv ⊢
    rcases List.mem_filter.1 hj with ⟨hold, hne⟩
    have hju : j ≠ u.id := by simpa using hne
    have hnone := hinv.settled j hold (by simp [hju, hrest]) v hv
    rcases hcurrent.opened_of_pending hold with ⟨v', hsubject', _, hjudge'⟩
    rw [Option.some.inj (hsubject'.unit.symm.trans hv)] at hjudge'
    -- The unit that was decided is no overrider, so the other one sees no difference.
    intro g' hverdict
    refine hnone g' ((unitVerdict_dispatch_iff hjudge').2 ?_)
    refine ((unitVerdict_dispatch_iff hjudge').1 hverdict).congr fun o ho => ?_
    have hou : o ≠ u.id := fun hc => w.session.program.not_mem_overridersOf hcurrent.wellFormed
      hinv.indexed hsubject.unit (judge_dispatch hjudge) v (hc ▸ ho)
    exact (gradeAt_set_of_ne g hou).symm

theorem dispatches_dispatched {w : Sweep} (hw : w.session.Current)
    (hindex : w.session.program.Indexed) : w.dispatches.session.Dispatched := by
  have hinv : SettledInv w.session.pending w.session :=
    ⟨⟨hw, hw.pending_sorted.imp fun h => Nat.ne_of_lt h, fun _ h => h⟩, hindex,
      fun _ hmem hc => absurd hmem hc⟩
  have hlast := (Follows.foldl resolve resolve_settled _ w hinv).2
  exact fun id hid => hlast.settled id hid List.not_mem_nil

end Sweep

namespace Session

/-- At the end of a round, no pending unit has a verdict. -/
theorem round_dispatched {s : Session} {w : Sweep} (hs : s.Current) (hindex : s.program.Indexed)
    (h : s.round = .ok w) : w.session.Dispatched := by
  have hlocals := (Sweep.locals_follows (w := { session := s }) hs).1
  have hcurrent := hlocals.current hs
  rcases Sweep.calls_follows hcurrent with ⟨v, hv, hcalls⟩
  rw [round, hv] at h
  rw [← show v.dispatches = w from Except.ok.inj h]
  refine Sweep.dispatches_dispatched (hcalls.current hcurrent) ?_
  rcases (hlocals.trans hcalls).steps with ⟨n, hsteps, _⟩
  rw [hsteps.sameTask.program]
  exact hindex

/-- A run ends with a round, whether it stops there by itself or not. -/
theorem iterate_ends_with_round {s : Session} (hs : s.Current) {bound : Nat} (hbound : 0 < bound)
    {r : Progress} (h : s.iterate bound = .ok r) :
    ∃ (n : Nat) (before : Session) (w : Sweep), Steps n s before ∧ before.round = .ok w ∧
      r.session = w.session := by
  induction bound generalizing s r with
  | zero => exact absurd hbound (Nat.lt_irrefl 0)
  | succ bound ih =>
      rcases round_spec hs with ⟨w, n, hw, hn, _⟩
      rw [iterate_succ hw] at h
      by_cases hchanged : w.changed = true
      · rw [if_pos hchanged] at h
        rcases exists_of_map_eq_ok h with ⟨rest, hrest, rfl⟩
        rcases Nat.eq_zero_or_pos bound with rfl | hpos
        · exact ⟨0, s, w, .refl s, hw, by rw [← show _ = rest from Except.ok.inj hrest]⟩
        · rcases ih (hn.current hs) hpos hrest with ⟨m, before, v, hm, hv, heq⟩
          exact ⟨n + m, before, v, hn.trans hm, hv, heq⟩
      · rw [if_neg hchanged] at h
        exact ⟨0, s, w, .refl s, hw, by rw [← Except.ok.inj h]⟩

/-- At the end of a run, no pending unit has a verdict, whatever came before. -/
theorem history_dispatched {axis : Axis} {catalog : Catalog} {scope : List String}
    {ops : List Operation} {s t : Session} {summary : RunSummary}
    (hperform : (start axis catalog scope).performAll ops = .ok s)
    (hrun : s.run = .ok (t, summary)) : t.Dispatched := by
  have hstart := start_lawful axis catalog scope
  rcases performAll_kept (P := fun s => s.prepared.Grounded) hstart (prepared_grounded hstart rfl)
    (fun _ _ _ => perform_grounded) hperform with ⟨hs, hgrounded⟩
  rcases run_spec hs with ⟨r, _, hr, _, _, hrun'⟩
  rcases iterate_ends_with_round (prepared_current hs) (performAll_roundBound hperform) hr with
    ⟨n, before, w, hsteps, hround, heq⟩
  have hbefore := hsteps.grounded hgrounded
  have hlast := round_dispatched hbefore.current hbefore.indexed hround
  rw [← heq] at hlast
  rw [(Prod.mk.inj (Except.ok.inj (hrun.symm.trans hrun'))).1, r.finish_eq]
  exact hlast

/-- The unit waits on another one that is undecided: on an overrider if it is pending,
    else on a call target. -/
def HeldUpBy (s : Session) (u : CodeUnit) (b : UnitId) : Prop :=
  (s.gradeOf b).isTemporary = true ∧
    if u.id ∈ s.pending then b ∈ s.program.overridersOf u else b ∈ u.targets

/-- A text about an unsure unit, and what is the case if it is given at the end of a
    run. -/
inductive Explains (s : Session) (converged : Bool) (u : CodeUnit) : String → Prop
  /-- The text names the units that the unit waits on. -/
  | blocked {names : List String} (some : names ≠ []) (nodup : names.Nodup)
      (exact : ∀ n, n ∈ names ↔ ∃ v ∈ s.program.units, s.HeldUpBy u v.id ∧ v.qualified = n) :
      Explains s converged u
        ("unsure about " ++ u.qualified ++ " because of [" ++ Text.join ", " names ++ "]")
  /-- The unit is pending and has no overriders. -/
  | alone (pending : u.id ∈ s.pending) (none : s.program.overridersOf u = []) :
      Explains s converged u ("unsure about " ++ u.qualified ++ ": no known overriders")
  /-- The run was cut short between a call target and the unit. It is the same text. -/
  | cutShort (stopped : converged = false) (closed : u.id ∉ s.pending)
      (body : s.program.dispatchesVirtually u = false)
      (decided : ∀ b ∈ u.targets, (s.gradeOf b).isFinal = true) :
      Explains s converged u ("unsure about " ++ u.qualified ++ ": no known overriders")

/-- A text that ends with another letter does not end with the remark on cycles. -/
theorem not_suffix_append {x y : String} (hy : y.toList ≠ [])
    (hlast : "; it lies on a call cycle".toList.getLast? ≠ y.toList.getLast?) :
    ¬ "; it lies on a call cycle".toList <:+ (x ++ y).toList := by
  rintro ⟨start, heq⟩
  have hsame := congrArg List.getLast? heq
  rw [String.toList_append, List.getLast?_append_of_ne_nil _ (by decide),
    List.getLast?_append_of_ne_nil _ hy] at hsame
  exact hlast hsame

/-- No text ends with the remark on cycles by itself. -/
theorem Explains.not_suffix {s : Session} {converged : Bool} {u : CodeUnit} {text : String}
    (h : s.Explains converged u text) :
    ¬ "; it lies on a call cycle".toList <:+ text.toList := by
  cases h with
  | blocked _ _ _ => exact not_suffix_append (by decide) (by decide)
  | alone _ _ => exact not_suffix_append (by decide) (by decide)
  | cutShort _ _ _ _ => exact not_suffix_append (by decide) (by decide)

theorem Explains.suffix_iff {s : Session} {converged : Bool} {u : CodeUnit}
    {text message : String} (h : s.Explains converged u text) {cyclic : Prop}
    (hmessage : cyclic ∧ message = text ++ "; it lies on a call cycle" ∨
      ¬ cyclic ∧ message = text) :
    "; it lies on a call cycle".toList <:+ message.toList ↔ cyclic := by
  rcases hmessage with ⟨hcyclic, rfl⟩ | ⟨hcyclic, rfl⟩
  · refine iff_of_true ?_ hcyclic
    rw [String.toList_append]
    exact List.suffix_append _ _
  · exact iff_of_false h.not_suffix hcyclic

section Explained

variable {s : Session} (hs : s.Current) (hindex : s.program.Indexed) {u : CodeUnit}
  (hu : s.program.units[u.id]? = some u) (hunsure : s.gradeOf u.id = .unsure)
include hs hindex hu hunsure

/-- Units that are waited on are there. -/
theorem exists_of_mem_blockers {b : UnitId} (hb : b ∈ s.blockers u) :
    ∃ v, s.program.units[b]? = some v :=
  (BlockedBy.spec hs hindex ⟨u, hu, hunsure, hb⟩).2.2

theorem blockerNames_nodup : ((s.blockers u).map s.program.unitName).Nodup := by
  have hnodup : (s.blockers u).Nodup := by
    rw [blockers]
    split
    · exact ((Program.overridersOf_pairwise hs.wellFormed hindex u).imp Nat.ne_of_lt).filter _
    · exact nodup_eraseDups _
  -- Different units have different names.
  refine hnodup.map_on fun a ha b hb heq => ?_
  rcases exists_of_mem_blockers hs hindex hu hunsure ha with ⟨v, hv⟩
  rcases exists_of_mem_blockers hs hindex hu hunsure hb with ⟨w, hw⟩
  rw [Program.unitName_of_getElem? hv, Program.unitName_of_getElem? hw] at heq
  exact hs.wellFormed.unit_names a b v w hv hw heq

theorem mem_blockerNames (n : String) :
    n ∈ (s.blockers u).map s.program.unitName ↔
      ∃ v ∈ s.program.units, s.HeldUpBy u v.id ∧ v.qualified = n := by
  rw [List.mem_map]
  constructor
  · rintro ⟨b, hb, rfl⟩
    rcases exists_of_mem_blockers hs hindex hu hunsure hb with ⟨v, hv⟩
    rw [Program.unitName_of_getElem? hv]
    rw [← hs.id_eq hv] at hb
    exact ⟨v, Array.mem_of_getElem? hv, mem_blockers.1 hb, rfl⟩
  · rintro ⟨v, hv, hheld, rfl⟩
    exact ⟨v.id, mem_blockers.2 hheld,
      Program.unitName_of_getElem? (hs.wellFormed.getElem?_of_mem hv)⟩

/-- What is said of an unsure unit at the end of a run. -/
theorem explanation_explains (hdispatched : s.Dispatched) {converged : Bool}
    (hstable : converged = true → s.Stable) :
    ∃ text, s.Explains converged u text ∧
      (TransGen s.program.Calls u.id u.id ∧ s.explanation u = text ++ "; it lies on a call cycle" ∨
        ¬ TransGen s.program.Calls u.id u.id ∧ s.explanation u = text) := by
  suffices h : ∃ text, s.Explains converged u text ∧ s.explanation u =
      if s.program.liesOnCycle u.id then text ++ "; it lies on a call cycle" else text by
    rcases h with ⟨text, htext, heq⟩
    refine ⟨text, htext, ?_⟩
    rw [heq, ← Program.liesOnCycle_iff]
    by_cases hcycle : s.program.liesOnCycle u.id = true
    · exact Or.inl ⟨hcycle, if_pos hcycle⟩
    · exact Or.inr ⟨hcycle, if_neg hcycle⟩
  by_cases hnone : s.blockers u = []
  · refine ⟨"unsure about " ++ u.qualified ++ ": no known overriders", ?_, ?_⟩
    · by_cases hpending : u.id ∈ s.pending
      · refine .alone hpending ?_
        -- Decided overriders would have led to a verdict.
        by_contra hsome
        rcases exists_verdict_of_blockers_eq_nil hs hu hunsure hnone (fun hc => hsome hc.2) with
          ⟨g, hg⟩
        exact hdispatched u.id hpending u hu g hg
      · rcases hs.waiting_of_unsure hu hunsure hpending with ⟨floor, _, hjudge, _, _⟩
        refine .cutShort ?_ hpending (judge_provisional_body hjudge) fun b hb =>
          isFinal_of_blockers_eq_nil hnone (by rwa [if_neg hpending])
        -- A run that stops by itself leaves no such unit.
        by_contra hconverged
        have hstop := hstable (by simpa using hconverged)
        exact exists_blocker hs hstop hu hunsure (fun hc => hpending hc.1) hnone
    · rw [explanation, hnone]
      rfl
  · have hnames : (s.blockers u).map s.program.unitName ≠ [] := by simpa using hnone
    refine ⟨_, .blocked hnames (blockerNames_nodup hs hindex hu hunsure)
      (mem_blockerNames hs hindex hu hunsure), ?_⟩
    rw [explanation]
    simp only [List.isEmpty_iff, hnames, if_false]

end Explained

/-- The records of unsure units are made at the end of a run. -/
theorem mem_unresolved {r : Progress} (hongoing : r.session.Ongoing) {bound : Nat}
    {d : Diagnostic} :
    d ∈ (r.finish bound).log.withReason .unresolved ↔
      ∃ u ∈ r.session.unitsWith .unsure,
        r.session.log.inScope (r.session.program.typeName u.owner) = true ∧
        d = { owner := r.session.program.typeName u.owner, unit := u.qualified,
              reason := .unresolved, message := r.session.explanation u } := by
  rw [Log.withReason, List.mem_filter, decide_eq_true_eq, Progress.finish_entries]
  constructor
  · rintro ⟨hmem, hreason⟩
    rcases List.mem_append.1 hmem with hearlier | hopen
    · rcases List.mem_append.1 hearlier with hbefore | hrun
      · exact absurd (hongoing d hbefore) (by rw [hreason]; decide)
      · exact absurd (r.runEntries_runLevel bound d hrun) (by rw [hreason]; decide)
    · rcases List.mem_map.1 hopen with ⟨u, hu, rfl⟩
      rcases List.mem_filter.1 hu with ⟨hunsure, hscope⟩
      exact ⟨u, hunsure, hscope, rfl⟩
  · rintro ⟨u, hunsure, hscope, rfl⟩
    refine ⟨List.mem_append_right _ ?_, rfl⟩
    exact List.mem_map.2 ⟨u, List.mem_filter.2 ⟨hunsure, hscope⟩, rfl⟩

/-- After every run, whatever came before it and whether or not it was cut short: every
    record of an unsure unit is about a unit that is unsure, and its text names the
    undecided units that the unit waits on, each of them once, or says that there are no
    known overriders. The latter is said of pending units without overriders, and besides
    only in a run that was cut short, of a unit with a body whose call targets are all
    decided. A call cycle is remarked exactly if the unit is on one. -/
theorem explanations_say_what_holds (axis : Axis) (catalog : Catalog) (scope : List String)
    (ops : List Operation) :
    ∃ s t summary, (start axis catalog scope).performAll ops = .ok s ∧
      s.run = .ok (t, summary) ∧
      ∀ d ∈ t.log.withReason .unresolved, ∃ u ∈ t.program.units,
        d.unit = u.qualified ∧ t.gradeOf u.id = .unsure ∧
        (∃ text, t.Explains summary.converged u text ∧
          (TransGen t.program.Calls u.id u.id ∧ d.message = text ++ "; it lies on a call cycle" ∨
            ¬ TransGen t.program.Calls u.id u.id ∧ d.message = text)) ∧
        ("; it lies on a call cycle".toList <:+ d.message.toList ↔
          TransGen t.program.Calls u.id u.id) := by
  rcases history_ending axis catalog scope ops with ⟨s, r, summary, hperform, hrun, hsummary, hr⟩
  have hdispatched := history_dispatched hperform hrun
  have hcurrent : (r.finish s.roundBound).Current := by
    rw [r.finish_eq]
    exact hr.grounded.current.withLog _ _
  have hindex : (r.finish s.roundBound).program.Indexed := by
    rw [r.finish_program]
    exact hr.grounded.indexed
  have hstable : summary.converged = true → (r.finish s.roundBound).Stable :=
    fun hc => Progress.finish_stable (hr.stable (hsummary ▸ hc)) _
  refine ⟨s, _, summary, hperform, hrun, fun d hd => ?_⟩
  rcases (mem_unresolved hr.grounded.ongoing).1 hd with ⟨u, hu, _, rfl⟩
  rcases (mem_unitsWith hr.grounded.current).1 hu with ⟨id, hid, hunsure⟩
  have heq := hr.grounded.current.id_eq hid
  subst heq
  rw [← r.finish_program s.roundBound] at hid
  rw [← r.finish_gradeOf s.roundBound] at hunsure
  have hsame : r.session.explanation u = (r.finish s.roundBound).explanation u := by
    rw [r.finish_eq]
    rfl
  rcases explanation_explains hcurrent hindex hid hunsure hdispatched hstable with
    ⟨text, htext, hmessage⟩
  rw [← hsame] at hmessage
  exact ⟨u, Array.mem_of_getElem? hid, rfl, hunsure, ⟨text, htext, hmessage⟩,
    htext.suffix_iff hmessage⟩

/-- A row of three calls, to be run with one round. -/
def shortLine : List Operation :=
  [.limitRounds 1,
    .declare (.unit ((UnitDecl.method "a.Main" "draw").calling "a.Pen" "a.Pen.line()")),
    .declare (.unit ((UnitDecl.method "a.Pen" "line").calling "a.Pen" "a.Pen.dot()")),
    .declare (.unit (UnitDecl.method "a.Pen" "dot"))]

/-- If every call leads to a later unit, there is no cycle. -/
theorem not_cyclic_of_ascending {s : Session} (hs : s.Current)
    (h : ∀ u ∈ s.program.units.toList, ∀ b ∈ u.targets, u.id < b) (id : UnitId) :
    ¬ TransGen s.program.Calls id id := by
  intro hcycle
  have hlt : TransGen (· < ·) id id := TransGen.mono (fun a b hcall => ?_) _ _ hcycle
  · rw [Relation.transGen_eq_self] at hlt
    exact Nat.lt_irrefl id hlt
  · rcases hcall with ⟨u, hu, hb⟩
    rw [← hs.id_eq hu]
    exact h u (hs.mem_units hu) b hb

/-- The first unit of the row is visited before the second one is decided. It is not
    pending and waits on nothing in the end, but its record says that it has no known
    overriders. -/
theorem cut_short_run_blames_overriders :
    ∃ s t summary, (start .purity {} []).performAll shortLine = .ok s ∧
      s.run = .ok (t, summary) ∧
      ∃ d ∈ t.log.withReason .unresolved, d.unit = "a.Main.draw()" ∧
        d.message = "unsure about a.Main.draw(): no known overriders" ∧
        ∃ u ∈ t.program.units, u.qualified = "a.Main.draw()" ∧ u.id ∉ t.pending := by
  rcases history_ending .purity {} [] shortLine with ⟨s, r, summary, hperform, hrun, _, hr⟩
  -- Everything but the search for cycles can be computed.
  have hcomputed : (fun x : Session × RunSummary => decide (∃ u ∈ x.1.unitsWith .unsure,
      u.qualified = "a.Main.draw()" ∧ u.id ∉ x.1.pending ∧ x.1.blockers u = [] ∧
        ∀ v ∈ x.1.program.units.toList, ∀ b ∈ v.targets, v.id < b)) <$>
      ((start .purity {} []).performAll shortLine >>= run) = .ok true := by
    decide +kernel
  rw [hperform] at hcomputed
  change _ <$> s.run = _ at hcomputed
  rw [hrun] at hcomputed
  have hend := of_decide_eq_true (Except.ok.inj hcomputed)
  rw [r.finish_eq] at hend
  rcases hend with ⟨u, hu, hname, hclosed, hnone, hascending⟩
  have hscope : r.session.log.inScope (r.session.program.typeName u.owner) = true := by
    rw [Log.inScope, hr.scope_eq, (start_declareAll .purity {} [] _).scope_eq]
    rfl
  have hcycle : ¬ r.session.program.liesOnCycle u.id = true := by
    rw [Program.liesOnCycle_iff]
    exact not_cyclic_of_ascending hr.grounded.current hascending u.id
  refine ⟨s, _, summary, hperform, hrun, _, (mem_unresolved hr.grounded.ongoing).2
    ⟨u, hu, hscope, rfl⟩, hname, ?_, u, ?_, hname, ?_⟩
  · have hnone' : r.session.blockers u = [] := hnone
    simp only [explanation, hnone', if_neg hcycle, hname]
    rfl
  · rw [r.finish_program]
    exact Array.mem_toList_iff.1 (List.mem_filter.1 hu).1
  · rw [r.finish_pending]
    exact hclosed

end Session

end CoreShell
