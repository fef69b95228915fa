import CoreShell.Catalog.Standard
import CoreShell.Proofs.Keys
import CoreShell.Proofs.Texts
import Mathlib.Data.List.Basic

/-!
# Listings

A catalogue is built in several ways: from a configuration, with or without a standard
catalogue underneath, and by adding entries of one grade after another. What a look-up finds
does not depend on any of this. It is the best grade among all entries that were listed and
that the name begins with, so a short strict entry wins over a long one of another grade.

Every addition does to the entries of each grade the same thing, which is to keep the new
ones behind those it has. One induction over additions therefore says what a catalogue lists
in the end, and the configuration and the standard catalogues are additions too.

Since a look-up goes by the best grade, a longer name is never worse off than its
beginnings: all entries that the beginning matches are still matched.

## Main definitions

* `Catalog.entriesOf`: The entries of a grade.
* `Catalog.Tidy`: No entry is listed twice with one grade.
* `Catalog.Addition`, `Catalog.add`: One more call that adds entries.
* `Catalog.Plan`, `Catalog.Plan.build`: A way to build a catalogue.
* `Catalog.Plan.Lists`: What was listed on the way.
* `Catalog.Matches`, `Catalog.Best`: The grades a name may have, and the best of them.

## Theorems

* `Catalog.entriesOf_add`: What an addition does to the entries of a grade.
* `Catalog.mem_entriesOf_addAll`, `Catalog.Tidy.addAll`: What a run of additions does.
* `Catalog.Plan.toCatalog_eq`: A configuration is three additions.
* `Catalog.Plan.mem_entriesOf_build`: A catalogue has the entries that were listed.
* `Catalog.lookup_eq_some_iff`, `Catalog.lookup_eq_none_iff`: A look-up finds the best grade.
* `Catalog.lookup_congr`, `Catalog.size_congr`: Catalogues with the same entries.
* `Catalog.lookup_append`: Longer names.
* `Catalog.lookup_finds_best_listing`: All of this, by what was listed.
-/

namespace CoreShell

theorem Grade.rank_inj {g g' : Grade} : g.rank = g'.rank ↔ g = g' := by
  cases g <;> cases g' <;> decide

namespace Catalog

/-- The entries of a grade. Temporary grades have none. -/
def entriesOf (c : Catalog) : Grade → List String
  | .strict => c.strict
  | .domain => c.domain
  | .not => c.not
  | .unsure | .unchecked => []

/-- No entry is listed twice with one grade. -/
def Tidy (c : Catalog) : Prop :=
  ∀ g, (c.entriesOf g).Nodup

/-- Further entries of one grade. -/
inductive Addition where
  | strict (more : List String)
  | domain (more : List String)
  | not (more : List String)

/-- The entries of a grade in an addition. -/
def Addition.entriesOf : Addition → Grade → List String
  | .strict more, .strict => more
  | .domain more, .domain => more
  | .not more, .not => more
  | _, _ => []

/-- The catalogue with an addition. -/
def add (c : Catalog) : Addition → Catalog
  | .strict more => c.withStrict more
  | .domain more => c.withDomain more
  | .not more => c.withNot more

/-- The catalogue with one addition after another. -/
def addAll (c : Catalog) (additions : List Addition) : Catalog :=
  additions.foldl add c

section Additions

variable {c : Catalog}

theorem mem_extend {entries more : List String} {entry : String} :
    entry ∈ extend entries more ↔ entry ∈ entries ∨ entry ∈ more := by
  change entry ∈ more.foldl keep entries ↔ _
  induction more generalizing entries with
  | nil => simp
  | cons first rest ih => rw [List.foldl_cons, ih, mem_keep, List.mem_cons, or_assoc]

theorem nodup_extend {entries : List String} (h : entries.Nodup) (more : List String) :
    (extend entries more).Nodup :=
  List.foldlRecOn more keep h fun _ hkept entry _ => nodup_keep hkept entry

/-- Whatever its grade, an addition extends the entries of each grade by its own. -/
theorem entriesOf_add (c : Catalog) (a : Addition) (g : Grade) :
    (c.add a).entriesOf g = extend (c.entriesOf g) (a.entriesOf g) := by
  cases a with
  | strict more => cases g <;> rfl
  | domain more => cases g <;> rfl
  | not more => cases g <;> rfl

theorem Tidy.add (h : c.Tidy) (a : Addition) : (c.add a).Tidy := by
  intro g
  rw [entriesOf_add]
  exact nodup_extend (h g) _

theorem Tidy.addAll (h : c.Tidy) (additions : List Addition) : (c.addAll additions).Tidy :=
  List.foldlRecOn additions Catalog.add h fun _ hbefore a _ => hbefore.add a

theorem mem_entriesOf_addAll {additions : List Addition} {g : Grade} {entry : String} :
    entry ∈ (c.addAll additions).entriesOf g ↔
      entry ∈ c.entriesOf g ∨ ∃ a ∈ additions, entry ∈ a.entriesOf g := by
  unfold Catalog.addAll
  induction additions generalizing c with
  | nil => simp
  | cons first rest ih =>
      rw [List.foldl_cons, ih, entriesOf_add, mem_extend, List.exists_mem_cons_iff, or_assoc]

theorem tidy_empty : ({} : Catalog).Tidy := by
  intro g
  cases g <;> exact List.nodup_nil

theorem tidy_standard (axis : Axis) : (standard axis).Tidy := by
  cases axis with
  | purity =>
      exact tidy_empty.addAll [.strict runtimeStrict, .domain runtimeDomain, .not runtimeImpure]
  | determinism => exact tidy_empty.addAll [.not runtimeImpure, .not runtimeRandom]

end Additions

/-- A way to build a catalogue: a configuration over a standard catalogue, and additions
    after that. -/
structure Plan where
  config : CatalogConfig
  standard : Catalog
  tidy : standard.Tidy
  additions : List Addition := []

namespace Plan

/-- The catalogue that is built. -/
def build (plan : Plan) : Catalog :=
  (plan.config.toCatalog plan.standard).addAll plan.additions

/-- The entries of a grade in the configuration. -/
def configured (plan : Plan) : Grade → List String
  | .strict => plan.config.strict
  | .domain => plan.config.domain
  | .not => plan.config.not
  | .unsure | .unchecked => []

/-- An entry is listed with a grade: in the standard catalogue if it is used, in the
    configuration, or in an addition. -/
def Lists (plan : Plan) (g : Grade) (entry : String) : Prop :=
  (plan.config.useStandard = true ∧ entry ∈ plan.standard.entriesOf g) ∨
    entry ∈ plan.configured g ∨ ∃ a ∈ plan.additions, entry ∈ a.entriesOf g

/-- What a configuration is built over. -/
def base (plan : Plan) : Catalog :=
  if plan.config.useStandard then plan.standard else {}

theorem mem_entriesOf_base {plan : Plan} {g : Grade} {entry : String} :
    entry ∈ plan.base.entriesOf g ↔
      plan.config.useStandard = true ∧ entry ∈ plan.standard.entriesOf g := by
  unfold base
  by_cases hused : plan.config.useStandard = true
  · rw [if_pos hused, and_iff_right hused]
  · rw [if_neg hused]
    refine iff_of_false ?_ fun h => hused h.1
    cases g <;> exact List.not_mem_nil

theorem tidy_base (plan : Plan) : plan.base.Tidy := by
  unfold base
  by_cases hused : plan.config.useStandard = true
  · rw [if_pos hused]
    exact plan.tidy
  · rw [if_neg hused]
    exact tidy_empty

/-- A configuration is three additions, one for each grade. -/
theorem toCatalog_eq (plan : Plan) : plan.config.toCatalog plan.standard =
    plan.base.addAll [.strict plan.config.strict, .domain plan.config.domain,
      .not plan.config.not] :=
  rfl

theorem mem_entriesOf_toCatalog {plan : Plan} {g : Grade} {entry : String} :
    entry ∈ (plan.config.toCatalog plan.standard).entriesOf g ↔
      entry ∈ plan.base.entriesOf g ∨ entry ∈ plan.configured g := by
  rw [toCatalog_eq, mem_entriesOf_addAll]
  cases g <;> simp [Addition.entriesOf, configured]

/-- A catalogue has the entries that were listed. -/
theorem mem_entriesOf_build {plan : Plan} {g : Grade} {entry : String} :
    entry ∈ plan.build.entriesOf g ↔ plan.Lists g entry := by
  rw [build, mem_entriesOf_addAll, mem_entriesOf_toCatalog, mem_entriesOf_base, or_assoc, Lists]

theorem tidy_build (plan : Plan) : plan.build.Tidy := by
  rw [build, toCatalog_eq]
  exact (plan.tidy_base.addAll _).addAll _

end Plan

/-- The name begins with some entry of the grade. -/
def Matches (c : Catalog) (name : String) (g : Grade) : Prop :=
  ∃ entry ∈ c.entriesOf g, entry.toList <+: name.toList

/-- The best grade that the name has an entry for. -/
def Best (c : Catalog) (name : String) (g : Grade) : Prop :=
  c.Matches name g ∧ ∀ g', c.Matches name g' → g'.rank ≤ g.rank

section Lookup

variable {c c' : Catalog} {name : String} {g g' : Grade}

theorem startsWithAny_entriesOf :
    Text.startsWithAny (c.entriesOf g) name = true ↔ c.Matches name g :=
  startsWithAny_iff _ _

theorem Matches.isFinal (h : c.Matches name g) : g = .strict ∨ g = .domain ∨ g = .not := by
  rcases h with ⟨entry, hentry, _⟩
  cases g with
  | strict => exact Or.inl rfl
  | domain => exact Or.inr (Or.inl rfl)
  | not => exact Or.inr (Or.inr rfl)
  | unsure | unchecked => exact absurd hentry List.not_mem_nil

theorem Best.unique (h : c.Best name g) (h' : c.Best name g') : g = g' :=
  Grade.rank_inj.1 (Nat.le_antisymm (h'.2 g h.1) (h.2 g' h'.1))

/-- A look-up asks for one grade after another, best first. -/
theorem lookup_eq (c : Catalog) (name : String) : c.lookup name =
    if Text.startsWithAny (c.entriesOf .strict) name then some .strict
    else if Text.startsWithAny (c.entriesOf .domain) name then some .domain
    else if Text.startsWithAny (c.entriesOf .not) name then some .not
    else none :=
  rfl

/-- A look-up ends with the best grade, or no entry matches. -/
theorem lookup_cases (c : Catalog) (name : String) :
    (∃ g, c.lookup name = some g ∧ c.Best name g) ∨
      (c.lookup name = none ∧ ∀ g, ¬ c.Matches name g) := by
  rw [lookup_eq]
  by_cases hstrict : c.Matches name .strict
  · rw [if_pos (startsWithAny_entriesOf.2 hstrict)]
    refine Or.inl ⟨.strict, rfl, hstrict, fun g hg => ?_⟩
    rcases hg.isFinal with rfl | rfl | rfl <;> decide
  rw [if_neg fun hc => hstrict (startsWithAny_entriesOf.1 hc)]
  -- From here on better grades are ruled out by what was asked before.
  by_cases hdomain : c.Matches name .domain
  · rw [if_pos (startsWithAny_entriesOf.2 hdomain)]
    refine Or.inl ⟨.domain, rfl, hdomain, fun g hg => ?_⟩
    rcases hg.isFinal with rfl | rfl | rfl
    · exact absurd hg hstrict
    · exact Nat.le_refl _
    · decide
  rw [if_neg fun hc => hdomain (startsWithAny_entriesOf.1 hc)]
  by_cases hnot : c.Matches name .not
  · rw [if_pos (startsWithAny_entriesOf.2 hnot)]
    refine Or.inl ⟨.not, rfl, hnot, fun g hg => ?_⟩
    rcases hg.isFinal with rfl | rfl | rfl
    · exact absurd hg hstrict
    · exact absurd hg hdomain
    · exact Nat.le_refl _
  · rw [if_neg fun hc => hnot (startsWithAny_entriesOf.1 hc)]
    refine Or.inr ⟨rfl, fun g hg => ?_⟩
    rcases hg.isFinal with rfl | rfl | rfl
    · exact hstrict hg
    · exact hdomain hg
    · exact hnot hg

/-- A look-up finds the best grade that the name has an entry for. -/
theorem lookup_eq_some_iff : c.lookup name = some g ↔ c.Best name g := by
  rcases lookup_cases c name with ⟨g', hfound, hbest⟩ | ⟨hfound, hnone⟩
  · rw [hfound, Option.some.injEq]
    constructor
    · rintro rfl
      exact hbest
    · exact hbest.unique
  · rw [hfound]
    exact iff_of_false (by simp only [reduceCtorEq, not_false_eq_true]) fun h => hnone g h.1

theorem lookup_eq_none_iff : c.lookup name = none ↔ ∀ g, ¬ c.Matches name g := by
  rcases lookup_cases c name with ⟨g, hfound, hbest⟩ | ⟨hfound, hnone⟩
  · rw [hfound]
    exact iff_of_false (by simp only [reduceCtorEq, not_false_eq_true]) fun h => h g hbest.1
  · exact iff_of_true hfound hnone

/-- What is matched by the beginning of a name is matched by the name. -/
theorem Matches.append (h : c.Matches name g) (rest : String) : c.Matches (name ++ rest) g := by
  rcases h with ⟨entry, hentry, hbegins⟩
  refine ⟨entry, hentry, hbegins.trans ?_⟩
  rw [String.toList_append]
  exact List.prefix_append _ _

/-- A longer name is found with a grade at least as high. -/
theorem lookup_append (h : c.lookup name = some g) (rest : String) :
    ∃ g', c.lookup (name ++ rest) = some g' ∧ g.rank ≤ g'.rank := by
  have hmatch := (lookup_eq_some_iff.1 h).1.append rest
  rcases lookup_cases c (name ++ rest) with ⟨g', hfound, hbest⟩ | ⟨_, hnone⟩
  · exact ⟨g', hfound, hbest.2 g hmatch⟩
  · exact absurd hmatch (hnone g)

variable (hsame : ∀ g entry, entry ∈ c.entriesOf g ↔ entry ∈ c'.entriesOf g)
include hsame

theorem lookup_congr (name : String) : c.lookup name = c'.lookup name := by
  refine Option.ext fun g => ?_
  rw [lookup_eq_some_iff, lookup_eq_some_iff]
  simp only [Best, Matches, hsame]

/-- Without repetitions, the same entries are the same number of entries. -/
theorem size_congr (hc : c.Tidy) (hc' : c'.Tidy) : c.size = c'.size := by
  have hlength : ∀ g, (c.entriesOf g).length = (c'.entriesOf g).length :=
    fun g => ((List.perm_ext_iff_of_nodup (hc g) (hc' g)).2 (hsame g)).length_eq
  have hstrict := hlength .strict
  have hdomain := hlength .domain
  have hnot := hlength .not
  simp only [entriesOf] at hstrict hdomain hnot
  unfold size
  omega

omit hsame in
theorem isEmpty_eq (c : Catalog) : c.isEmpty = decide (c.size = 0) := by
  rw [Bool.eq_iff_iff, decide_eq_true_eq]
  unfold isEmpty size
  simp only [Bool.and_eq_true, List.isEmpty_iff_length_eq_zero]
  omega

end Lookup

/-- However a catalogue was built, a look-up finds the best grade among the listed entries
    that the name begins with, and nothing exactly if there is none. Two ways that list the
    same entries with the same grades make catalogues with the same look-ups and the same
    number of entries. A longer name has a grade at least as high. -/
theorem lookup_finds_best_listing :
    (∀ (plan : Plan) (name : String) (g : Grade), plan.build.lookup name = some g ↔
      (∃ entry, plan.Lists g entry ∧ entry.toList <+: name.toList) ∧
      ∀ g' entry, plan.Lists g' entry → entry.toList <+: name.toList → g'.rank ≤ g.rank) ∧
    (∀ (plan : Plan) (name : String), plan.build.lookup name = none ↔
      ∀ g entry, plan.Lists g entry → ¬ entry.toList <+: name.toList) ∧
    (∀ plan plan' : Plan, (∀ g entry, plan.Lists g entry ↔ plan'.Lists g entry) →
      (∀ name, plan.build.lookup name = plan'.build.lookup name) ∧
      plan.build.size = plan'.build.size ∧ plan.build.isEmpty = plan'.build.isEmpty) ∧
    ∀ (plan : Plan) (name rest : String) (g : Grade), plan.build.lookup name = some g →
      ∃ g', plan.build.lookup (name ++ rest) = some g' ∧ g.rank ≤ g'.rank := by
  refine ⟨fun plan name g => ?_, fun plan name => ?_, fun plan plan' hsame => ?_,
    fun plan name rest g h => lookup_append h rest⟩
  · rw [lookup_eq_some_iff]
    simp only [Best, Matches, Plan.mem_entriesOf_build, forall_exists_index, and_imp]
  · rw [lookup_eq_none_iff]
    simp only [Matches, Plan.mem_entriesOf_build, not_exists, not_and]
  · have hentries : ∀ g entry,
        entry ∈ plan.build.entriesOf g ↔ entry ∈ plan'.build.entriesOf g := by
      simp only [Plan.mem_entriesOf_build]
      exact hsame
    have hsize := size_congr hentries plan.tidy_build plan'.tidy_build
    refine ⟨lookup_congr hentries, hsize, ?_⟩
    rw [isEmpty_eq, isEmpty_eq, hsize]

/-- Utilities are strict, by configuration and once more behind the standard catalogue. -/
def configuredFirst : Plan :=
  { config := { strict := ["java.util."] }
    standard := standard .purity
    tidy := tidy_standard .purity
    additions := [.not ["app."], .strict ["java.util."]] }

/-- The same entries, in another order and with another repetition. -/
def addedFirst : Plan :=
  { config := { not := ["app.", "app."] }
    standard := standard .purity
    tidy := tidy_standard .purity
    additions := [.strict ["java.util."]] }

/-- The short strict entry wins over longer ones of the standard catalogue, whichever way it
    was listed. -/
theorem lookup_finds_best_listing_utilities :
    (∀ g entry, configuredFirst.Lists g entry ↔ addedFirst.Lists g entry) ∧
      configuredFirst.build.size = addedFirst.build.size ∧
      addedFirst.build.lookup "java.util.logging.Logger.fine()" = some .strict ∧
      configuredFirst.build.lookup "java.util." = some .strict ∧
      ∃ g, configuredFirst.build.lookup ("java.util." ++ "concurrent.Future.get()") = some g ∧
        Grade.strict.rank ≤ g.rank := by
  have hsame : ∀ g entry, configuredFirst.Lists g entry ↔ addedFirst.Lists g entry := by
    intro g entry
    cases g <;>
      simp [Plan.Lists, Plan.configured, configuredFirst, addedFirst, Addition.entriesOf]
  have hshort : configuredFirst.build.lookup "java.util." = some .strict := by decide +kernel
  rcases lookup_finds_best_listing with ⟨_, _, hbuilds, hlonger⟩
  rcases hbuilds _ _ hsame with ⟨hlookup, hsize, _⟩
  refine ⟨hsame, hsize, ?_, hshort, hlonger _ _ _ _ hshort⟩
  rw [← hlookup]
  decide +kernel

end Catalog

end CoreShell
