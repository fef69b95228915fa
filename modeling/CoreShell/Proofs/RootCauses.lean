import CoreShell.Proofs.Chains
import CoreShell.Proofs.Endings
import CoreShell.Proofs.Evaluation
import Mathlib.Data.Fintype.EquivFin
import Mathlib.Order.WellFounded

/-!
# Root Causes

A unit is left unsure because of others that are undecided, and those because of
others again. The rules leave no unit undecided that waits on nothing, and there
are finitely many units, so the chain ends at something that the rules cannot
know, or goes around in a circle.

There are three such causes: an external unit that the catalogue does not list, a
unit without a body and without overriders, and a circle. A program that has none
of them is decided completely.

## Main definitions

* `Session.BlockedBy`: One unit is unsure because another one is undecided.
* `Session.RootCause`: What a chain of undecided units ends with.
* `Program.UsesSubmitted`: One submitted unit uses another.

## Theorems

* `exists_end_or_cycle`: Walks in a finite graph.
* `CallVerdict.exists_of_decided`, `DispatchVerdict.exists_of_decided`: The rules have
  a verdict if they have something to go by.
* `exists_blocker`: An unsure unit waits on another one.
* `exists_rootCause`: Every chain of undecided units can be followed to its cause.
* `undecided_units_have_causes`: So it is after every run that comes to its end.
-/

namespace CoreShell

open Relation (ReflTransGen TransGen)

/-- In a finite graph, one can walk from anywhere to an end or to a cycle. -/
theorem exists_end_or_cycle {α : Type} [Finite α] (R : α → α → Prop) (a : α) :
    ∃ b, ReflTransGen R a b ∧ (TransGen R b b ∨ ∀ c, ¬ R b c) := by
  by_contra hc
  push Not at hc
  -- Without a cycle on the way, walking on from what can be reached is an order.
  let further : α → α → Prop := fun c b => ReflTransGen R a b ∧ TransGen R b c
  have htrans : IsTrans α further := ⟨fun _ _ _ h h' => ⟨h'.1, h'.2.trans h.2⟩⟩
  have hirrefl : Std.Irrefl further := ⟨fun b h => (hc b h.1).1 h.2⟩
  have hwf := Finite.wellFounded_of_trans_of_irrefl further
  rcases hwf.has_min {b | ReflTransGen R a b} ⟨a, .refl⟩ with ⟨b, hb, hlast⟩
  rcases (hc b hb).2 with ⟨c, hstep⟩
  exact hlast c (ReflTransGen.tail hb hstep) ⟨hb, .single hstep⟩

section Decided

variable {p : Program} {u : CodeUnit} {grade : UnitId → Grade}

/-- The call rule has a verdict on decided targets. -/
theorem CallVerdict.exists_of_decided (floor : Grade)
    (hdecided : ∀ t ∈ u.targets, (grade t).isFinal = true) :
    ∃ g, CallVerdict p u floor grade g := by
  by_cases hfails : ∃ t ∈ p.exposedTargets u, grade t = .not
  · rcases hfails with ⟨t, ht, hnot⟩
    exact ⟨_, .absorbed hdecided ht hnot⟩
  push Not at hfails
  by_cases hdomain : ∃ t ∈ u.targets, grade t = .domain
  · rcases hdomain with ⟨t, ht, heq⟩
    exact ⟨_, .lowered hdecided hfails ht heq⟩
  push Not at hdomain
  exact ⟨_, .kept hdecided hfails hdomain⟩

/-- The dispatch rule has a verdict on decided overriders, if there are any. -/
theorem DispatchVerdict.exists_of_decided (hsome : p.overridersOf u ≠ [])
    (hdecided : ∀ o ∈ p.overridersOf u, (grade o).isFinal = true) :
    ∃ g, DispatchVerdict p u grade g := by
  by_cases hfails : ∃ o ∈ p.overridersOf u, grade o = .not
  · rcases hfails with ⟨o, ho, hnot⟩
    exact ⟨_, .failed ho hnot⟩
  push Not at hfails
  have hfree : ∀ o ∈ p.overridersOf u, grade o = .domain ∨ grade o = .strict :=
    fun o ho => ((Grade.isFinal_iff _).1 (hdecided o ho)).resolve_left (hfails o ho)
  by_cases hdomain : ∃ o ∈ p.overridersOf u, grade o = .domain
  · rcases hdomain with ⟨o, ho, heq⟩
    exact ⟨_, .domain (fun o ho => (hfree o ho).symm) ho heq⟩
  push Not at hdomain
  exact ⟨_, .strict hsome fun o ho => (hfree o ho).resolve_left (hdomain o ho)⟩

end Decided

/-- The first unit uses the second one, and both are submitted. -/
def Program.UsesSubmitted (p : Program) (a b : UnitId) : Prop :=
  p.Uses a b ∧ ∃ u v, p.units[a]? = some u ∧ u.submitted = true ∧
    p.units[b]? = some v ∧ v.submitted = true

namespace Session

/-- The first unit is unsure, and the second one is what it waits on. -/
def BlockedBy (s : Session) (a b : UnitId) : Prop :=
  ∃ u, s.program.units[a]? = some u ∧ s.gradeOf a = .unsure ∧ b ∈ s.blockers u

/-- What a chain of undecided units ends with. -/
inductive RootCause (s : Session) (id : UnitId) : Prop
  /-- An external unit that the catalogue does not list. -/
  | foreign {u : CodeUnit} (unit : s.program.units[id]? = some u)
      (external : u.submitted = false) (unlisted : s.catalog.lookup u.qualified = none)
  /-- A pending unit that nothing overrides. -/
  | alone {u : CodeUnit} (unit : s.program.units[id]? = some u) (pending : id ∈ s.pending)
      (none : s.program.overridersOf u = [])
  /-- A unit that waits on itself in the end. -/
  | cycle (cycle : TransGen s.BlockedBy id id)

theorem mem_blockers {s : Session} {u : CodeUnit} {b : UnitId} :
    b ∈ s.blockers u ↔ (s.gradeOf b).isTemporary = true ∧
      if u.id ∈ s.pending then b ∈ s.program.overridersOf u else b ∈ u.targets := by
  rw [blockers]
  split
  · rw [List.mem_filter, and_comm]
  · rw [CodeUnit.undecidedCallees, List.mem_eraseDups, List.mem_filter, and_comm]
    rfl

/-- Whatever a unit waits on is decided, if nothing is undecided. -/
theorem isFinal_of_blockers_eq_nil {s : Session} {u : CodeUnit} (hnone : s.blockers u = [])
    {b : UnitId} (hb : if u.id ∈ s.pending then b ∈ s.program.overridersOf u else b ∈ u.targets) :
    (s.gradeOf b).isFinal = true := by
  refine Grade.isFinal_of_not_temporary fun htemporary => ?_
  exact absurd (mem_blockers.2 ⟨htemporary, hb⟩) (by simp [hnone])

/-- There is a verdict on an unsure unit that waits on nothing undecided, unless it is
    pending and nothing overrides it. -/
theorem exists_verdict_of_blockers_eq_nil {s : Session} (hs : s.Current) {id : UnitId}
    {u : CodeUnit} (hu : s.program.units[id]? = some u) (hunsure : s.gradeOf id = .unsure)
    (hnone : s.blockers u = []) (hknown : ¬ (id ∈ s.pending ∧ s.program.overridersOf u = [])) :
    ∃ g, UnitVerdict s.axis s.program u s.gradeOf g := by
  have hid := hs.id_eq hu
  subst hid
  by_cases hpending : u.id ∈ s.pending
  · rcases hs.opened_of_pending hpending with ⟨v, hsubject, _, hjudge⟩
    rw [Option.some.inj (hsubject.unit.symm.trans hu)] at hjudge
    rcases DispatchVerdict.exists_of_decided (fun hc => hknown ⟨hpending, hc⟩)
      fun o ho => isFinal_of_blockers_eq_nil hnone (by rwa [if_pos hpending]) with ⟨g, hg⟩
    exact ⟨g, .dispatched hjudge hg⟩
  · rcases hs.waiting_of_unsure hu hunsure hpending with ⟨floor, _, hjudge, _, _⟩
    rcases CallVerdict.exists_of_decided (p := s.program) floor
      fun t ht => isFinal_of_blockers_eq_nil hnone (by rwa [if_neg hpending]) with ⟨g, hg⟩
    exact ⟨g, .called hjudge hg⟩

section Stable

variable {s : Session} (hs : s.Current) (hstable : s.Stable)
include hs hstable

/-- What is undecided in the end is unsure or unknown. -/
theorem undecided_cases {id : UnitId} {u : CodeUnit} (hu : s.program.units[id]? = some u)
    (htemporary : (s.gradeOf id).isTemporary = true) :
    s.gradeOf id = .unsure ∧ u.submitted = true ∨
      u.submitted = false ∧ s.catalog.lookup u.qualified = none := by
  have hopen : (s.gradeOf id).isFinal = false := by rw [Grade.isFinal_eq_not, htemporary]; rfl
  have hgrade := hstable.gradeOf_of_not_final hs hu hopen
  rcases hsubmitted : u.submitted with _ | _
  · right
    rcases hlist : s.catalog.lookup u.qualified with _ | g
    · exact ⟨rfl, rfl⟩
    · rw [hs.gradeOf_listed hu hlist, Catalog.lookup_isFinal hlist] at hopen
      exact absurd hopen (by decide)
  · rw [hsubmitted] at hgrade
    exact Or.inl ⟨hgrade, rfl⟩

/-- An unsure unit waits on another one, unless it is pending and nothing
    overrides it. -/
theorem exists_blocker {id : UnitId} {u : CodeUnit} (hu : s.program.units[id]? = some u)
    (hunsure : s.gradeOf id = .unsure)
    (hknown : ¬ (id ∈ s.pending ∧ s.program.overridersOf u = [])) : s.blockers u ≠ [] := by
  intro hnone
  rcases exists_verdict_of_blockers_eq_nil hs hu hunsure hnone hknown with ⟨g, hg⟩
  exact hstable.undecided id u hu hunsure g hg

end Stable

section Causes

variable {s : Session} (hs : s.Current) (hindexed : s.program.Indexed) (hstable : s.Stable)
include hs hindexed

/-- What a unit waits on is an undecided unit that it uses. -/
theorem BlockedBy.spec {a b : UnitId} (h : s.BlockedBy a b) :
    s.program.Uses a b ∧ (s.gradeOf b).isTemporary = true ∧
      ∃ v, s.program.units[b]? = some v := by
  rcases h with ⟨u, hu, _, hmem⟩
  rcases mem_blockers.1 hmem with ⟨htemporary, huses⟩
  split at huses
  · rcases (s.program.mem_overridersOf hs.wellFormed hindexed u b).1 huses with ⟨v, hv, _⟩
    exact ⟨⟨u, hu, Or.inr huses⟩, htemporary, v, hv⟩
  · rcases List.mem_flatMap.1 huses with ⟨site, hsite, htarget⟩
    have hlt := ((hs.wellFormed.units_inRange a u hu).calls site hsite).2 b htarget
    exact ⟨⟨u, hu, Or.inl huses⟩, htemporary, getElem?_of_lt_size hlt⟩

include hstable

/-- Every chain of undecided units can be followed to its cause. -/
theorem exists_rootCause {id : UnitId} (hunsure : s.gradeOf id = .unsure) :
    ∃ root, ReflTransGen s.BlockedBy id root ∧ s.RootCause root := by
  rcases hs.exists_unit (by rw [hunsure]; decide) with ⟨u, hu⟩
  rcases exists_end_or_cycle (fun a b : Fin s.program.units.size => s.BlockedBy a b)
    ⟨id, lt_size_of_getElem? hu⟩ with ⟨root, hwalk, hend⟩
  have hchain : ReflTransGen s.BlockedBy id root := hwalk.lift Fin.val fun _ _ h => h
  refine ⟨root, hchain, ?_⟩
  rcases hend with hcycle | hlast
  · exact .cycle (hcycle.lift Fin.val fun _ _ h => h)
  -- At the end of the walk there is an undecided unit that waits on nothing.
  have htemporary : (s.gradeOf root).isTemporary = true := by
    rcases hchain.cases_tail with heq | ⟨_, _, hlink⟩
    · rw [heq, hunsure]
      rfl
    · exact (hlink.spec hs hindexed).2.1
  rcases getElem?_of_lt_size root.isLt with ⟨v, hv⟩
  rcases undecided_cases hs hstable hv htemporary with ⟨hunsure', _⟩ | ⟨hexternal, hunlisted⟩
  · by_cases halone : root.val ∈ s.pending ∧ s.program.overridersOf v = []
    · exact .alone hv halone.1 halone.2
    · have hblockers := exists_blocker hs hstable hv hunsure' halone
      rcases List.exists_mem_of_ne_nil _ hblockers with ⟨b, hb⟩
      have hlink : s.BlockedBy root b := ⟨v, hv, hunsure', hb⟩
      rcases (hlink.spec hs hindexed).2.2 with ⟨w, hw⟩
      exact absurd hlink (hlast ⟨b, lt_size_of_getElem? hw⟩)
  · exact .foreign hv hexternal hunlisted

/-- If all external units are listed, a chain of undecided units stays among the
    submitted ones. -/
theorem BlockedBy.usesSubmitted
    (hlisted : ∀ u ∈ s.program.units.toList, u.submitted = false →
      s.catalog.lookup u.qualified ≠ none)
    {a b : UnitId} (h : s.BlockedBy a b) : s.program.UsesSubmitted a b := by
  rcases h.spec hs hindexed with ⟨huses, htemporary, v, hv⟩
  rcases h with ⟨u, hu, hunsure, _⟩
  have hsubmitted : ∀ {id : UnitId} {w : CodeUnit}, s.program.units[id]? = some w →
      (s.gradeOf id).isTemporary = true → w.submitted = true := by
    intro id w hw hopen
    rcases undecided_cases hs hstable hw hopen with ⟨_, hsubmitted⟩ | ⟨hexternal, hunlisted⟩
    · exact hsubmitted
    · exact absurd hunlisted (hlisted w (hs.mem_units hw) hexternal)
  exact ⟨huses, u, v, hu, hsubmitted hu (by rw [hunsure]; rfl), hv, hsubmitted hv htemporary⟩

/-- Without a cause, everything is decided. -/
theorem isFinal_of_no_cause
    (hlisted : ∀ u ∈ s.program.units.toList, u.submitted = false →
      s.catalog.lookup u.qualified ≠ none)
    (hoverridden : ∀ u ∈ s.program.units.toList, u.submitted = true →
      s.program.dispatchesVirtually u = true → s.program.overridersOf u ≠ [])
    (hacyclic : ∀ id, ¬ TransGen s.program.UsesSubmitted id id) {id : UnitId} {u : CodeUnit}
    (hu : s.program.units[id]? = some u) : (s.gradeOf id).isFinal = true := by
  refine Grade.isFinal_of_not_temporary fun htemporary => ?_
  rcases undecided_cases hs hstable hu htemporary with ⟨hunsure, _⟩ | ⟨hexternal, hunlisted⟩
  · rcases exists_rootCause hs hindexed hstable hunsure with ⟨root, _, hcause⟩
    cases hcause with
    | foreign hv hexternal hunlisted => exact hlisted _ (hs.mem_units hv) hexternal hunlisted
    | alone hv hpending hnone =>
        rcases hs.opened_of_pending hpending with ⟨w, hsubject, _, hjudge⟩
        rw [Option.some.inj (hv.symm.trans hsubject.unit)] at hnone
        exact hoverridden w (hs.mem_units hsubject.unit) hsubject.submitted (judge_dispatch hjudge)
          hnone
    | cycle hcycle =>
        have hwithin : s.BlockedBy ≤ s.program.UsesSubmitted :=
          fun a b h => h.usesSubmitted hs hindexed hstable hlisted
        exact hacyclic root (TransGen.mono hwithin root root hcycle)
  · exact hlisted u (hs.mem_units hu) hexternal hunlisted

end Causes

/-- After every run that comes to its end, whatever came before it: from an unsure
    unit, a chain of undecided units leads to an external unit that the catalogue
    does not list, to a pending one that nothing overrides, or around in a circle,
    and only a pending unit that nothing overrides waits on nothing. So if none of
    the three exists, everything is decided. -/
theorem undecided_units_have_causes (axis : Axis) (catalog : Catalog) (scope : List String)
    (ops : List Operation) :
    ∃ s t summary, (start axis catalog scope).performAll ops = .ok s ∧
      s.run = .ok (t, summary) ∧ t.catalog = catalog ∧
      (summary.converged = true →
        (∀ id, t.gradeOf id = .unsure →
          ∃ root, ReflTransGen t.BlockedBy id root ∧ t.RootCause root) ∧
        (∀ id u, t.program.units[id]? = some u → t.gradeOf id = .unsure →
          ¬ (id ∈ t.pending ∧ t.program.overridersOf u = []) → t.blockers u ≠ []) ∧
        ((∀ u ∈ t.program.units.toList, u.submitted = false →
            catalog.lookup u.qualified ≠ none) →
          (∀ u ∈ t.program.units.toList, u.submitted = true →
            t.program.dispatchesVirtually u = true → t.program.overridersOf u ≠ []) →
          (∀ id, ¬ TransGen t.program.UsesSubmitted id id) →
          ∀ id u, t.program.units[id]? = some u → (t.gradeOf id).isFinal = true)) := by
  have hdeclared := start_declareAll axis catalog scope (Operation.declarations ops)
  rcases history_ending axis catalog scope ops with ⟨s, r, summary, hperform, hrun, hsummary, hr⟩
  have hcurrent : (r.finish s.roundBound).Current := by
    rw [r.finish_eq]
    exact hr.grounded.current.withLog _ _
  have hindexed : (r.finish s.roundBound).program.Indexed := by
    rw [r.finish_program]
    exact hr.grounded.indexed
  have hcatalog := (hr.settings s.roundBound).2.1.trans hdeclared.catalog_eq
  refine ⟨s, _, summary, hperform, hrun, hcatalog, fun hconverged => ?_⟩
  have hstable := Progress.finish_stable (hr.stable (hsummary ▸ hconverged)) s.roundBound
  refine ⟨fun id => exists_rootCause hcurrent hindexed hstable,
    fun id u => exists_blocker hcurrent hstable, fun hlisted hoverridden hacyclic id u => ?_⟩
  rw [← hcatalog] at hlisted
  exact isFinal_of_no_cause hcurrent hindexed hstable hlisted hoverridden hacyclic

/-- An interface with one unit behind it, which calls a library. -/
def gallery : List Declaration :=
  [.type (TypeDecl.interface "a.Shape"),
    .unit (UnitDecl.method "a.Shape" "area").asAbstract,
    .type ((TypeDecl.concrete "a.Disc").extending "a.Shape"),
    .unit ((UnitDecl.method "a.Disc" "area").calling "lib.Math" "lib.Math.pi()")]

/-- The library promises everything. -/
def libStrict : Catalog :=
  Catalog.withStrict {} ["lib"]

/-- Without a catalogue, the library is the cause that the interface is undecided.
    With one, there is no cause left. -/
theorem undecided_units_have_causes_gallery :
    (∃ s t summary, (start .purity {} []).performAll (gallery.map .declare) = .ok s ∧
      s.run = .ok (t, summary) ∧ summary.converged = true ∧ t.gradeOf 0 = .unsure ∧
      ∃ root, ReflTransGen t.BlockedBy 0 root ∧ t.RootCause root) ∧
    ∃ s t summary, (start .purity libStrict []).performAll (gallery.map .declare) = .ok s ∧
      s.run = .ok (t, summary) ∧ summary.converged = true ∧
      (∀ u ∈ t.program.units.toList, u.submitted = false → libStrict.lookup u.qualified ≠ none) ∧
      (∀ u ∈ t.program.units.toList, u.submitted = true →
        t.program.dispatchesVirtually u = true → t.program.overridersOf u ≠ []) ∧
      (∀ id, ¬ TransGen t.program.UsesSubmitted id id) ∧
      ∀ id u, t.program.units[id]? = some u → (t.gradeOf id).isFinal = true := by
  constructor
  · rcases undecided_units_have_causes .purity {} [] (gallery.map .declare) with
      ⟨s, t, summary, hperform, hrun, _, hcauses⟩
    have hs := start_declareAll .purity {} [] gallery
    have hsame : (start .purity {} []).declareAll gallery = s := Except.ok.inj hperform
    have hcheck : (fun x => (x.2.converged, x.1.gradeOf 0)) <$>
        ((start .purity {} []).declareAll gallery).run = .ok (true, .unsure) :=
      map_run_of_within (n := 4) hs.frozen (by decide +kernel)
    rw [hsame, hrun] at hcheck
    rcases Prod.mk.inj (Except.ok.inj hcheck) with ⟨hconverged, hunsure⟩
    exact ⟨s, t, summary, hperform, hrun, hconverged, hunsure, (hcauses hconverged).1 0 hunsure⟩
  · rcases undecided_units_have_causes .purity libStrict [] (gallery.map .declare) with
      ⟨s, t, summary, hperform, hrun, _, hcauses⟩
    have hs := start_declareAll .purity libStrict [] gallery
    have hsame : (start .purity libStrict []).declareAll gallery = s := Except.ok.inj hperform
    have hcheck : (fun x => (x.2.converged,
        decide (∀ u ∈ x.1.program.units.toList, u.submitted = false →
          libStrict.lookup u.qualified ≠ none),
        decide (∀ u ∈ x.1.program.units.toList, u.submitted = true →
          x.1.program.dispatchesVirtually u = true → x.1.program.overridersOf u ≠ []),
        decide (∀ id < x.1.program.units.size, ∀ u ∈ x.1.program.units[id]?,
          ∀ b ∈ u.targets ++ x.1.program.overridersOf u, id < b))) <$>
        ((start .purity libStrict []).declareAll gallery).run = .ok (true, true, true, true) :=
      map_run_of_within (n := 4) hs.frozen (by decide +kernel)
    rw [hsame, hrun] at hcheck
    have hfound := Except.ok.inj hcheck
    simp only [Prod.mk.injEq, decide_eq_true_eq] at hfound
    rcases hfound with ⟨hconverged, hlisted, hoverridden, hlater⟩
    -- Every unit uses later ones only.
    have hascends : t.program.UsesSubmitted ≤ (· < ·) := by
      rintro a b ⟨⟨u, hu, huses⟩, _⟩
      exact hlater a (lt_size_of_getElem? hu) u hu b (List.mem_append.2 huses)
    have hacyclic : ∀ id, ¬ TransGen t.program.UsesSubmitted id id :=
      fun id hcycle => Nat.lt_irrefl id (Relation.transGen_minimal hascends id id hcycle)
    exact ⟨s, t, summary, hperform, hrun, hconverged, hlisted, hoverridden, hacyclic,
      (hcauses hconverged).2.2 hlisted hoverridden hacyclic⟩

end Session

end CoreShell
