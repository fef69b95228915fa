import CoreShell.Command.Run
import CoreShell.Proofs.Scope
import CoreShell.Proofs.Texts

/-!
# Two Commands, One Verdict

A check and a list of classifications come from two sessions. Each command takes its
catalogue from the configuration on a way of its own, one through the rule it makes of
it and one by the axis that was asked for. The session for the check reports on the core
only and the other one on everything, and what comes out of the check is picked from its
session by rules of its own. Still both have the same catalogue, have loaded the same
graph and made the same rounds, so they differ in nothing but their logs. A check
therefore lists rows of the other command: those about failing units of the core, and by
their names those about units of the core that are left undecided.

That there are no more kinds of rows to account for has to do with the rounds. Every
run makes at least one of them, and it looks at every unit that was submitted.

## Main definitions

* `Program.InCore`: A unit of the core.
* `AxisReport.Reflects`: A report says about the core what the other command says.
* `Config.Classifies`: The session of the other command.

## Theorems

* `analyze_narrowed`: The two sessions differ in their logs.
* `Current.reflects_ofSession`: A report is picked from the rows of the other command.
* `classifies_of_analyze`: The rule of a check has the catalogues of its configuration.
* `Config.Classifies.classifications_eq`: The rows of the other command.
* `check_agrees_with_classify`: Every part of a check reflects the classifications.
-/

namespace CoreShell

namespace Program

/-- A unit of the core: it was submitted, and its owner begins with one of the given
    names. -/
def InCore (p : Program) (core : List String) (u : CodeUnit) : Prop :=
  u.submitted = true ∧ InLayer core (p.typeName u.owner)

theorem belongsTo_iff (p : Program) (core : List String) (u : CodeUnit) :
    p.belongsTo core u = true ↔ p.InCore core u := by
  rw [belongsTo, InCore, Bool.and_eq_true, startsWithAny_iff]

end Program

/-- A report says about the units of the core what a session has found out, in the
    order of the rows that are listed for the session. -/
structure AxisReport.Reflects (report : AxisReport) (core : List String) (s : Session)
    (rows : List Verdict) : Prop where
  /-- There is a row for every unit that was submitted, in the order of positions. -/
  rows_names : rows.map Verdict.unit =
    (s.program.units.toList.filter (·.submitted)).map CodeUnit.qualified
  violations_sublist : report.violations.Sublist rows
  violations_nodup : (report.violations.map Verdict.unit).Nodup
  mem_violations : ∀ u ∈ s.program.units, ∀ classification,
    { unit := u.qualified, classification } ∈ report.violations ↔
      s.program.InCore core u ∧ s.query u.qualified = .ok .not ∧
        classification = report.axis.label .not
  unresolved_sublist : report.unresolved.Sublist (rows.map Verdict.unit)
  unresolved_nodup : report.unresolved.Nodup
  mem_unresolved : ∀ u ∈ s.program.units, u.qualified ∈ report.unresolved ↔
    s.program.InCore core u ∧ s.query u.qualified = .ok .unsure
  /-- A unit of the core that is not listed has passed. -/
  passed : ∀ u ∈ s.program.units, s.program.InCore core u →
    u.qualified ∉ report.violations.map Verdict.unit → u.qualified ∉ report.unresolved →
      s.query u.qualified = .ok .strict ∨ s.query u.qualified = .ok .domain
  /-- Nobody else is listed. -/
  outside : ∀ u ∈ s.program.units, ¬ s.program.InCore core u →
    u.qualified ∉ report.violations.map Verdict.unit ∧ u.qualified ∉ report.unresolved
  /-- Every unit that was submitted has been looked at. -/
  looked : ∀ u ∈ s.program.units, u.submitted = true → s.query u.qualified ≠ .ok .unchecked

namespace Session

/-- The row of a unit in a list of classifications. -/
def row (s : Session) (u : CodeUnit) : Verdict :=
  { unit := u.qualified, classification := s.axis.label (s.gradeOf u.id) }

/-- Whether a unit of the core fails. -/
def failed (s : Session) (core : List String) (u : CodeUnit) : Bool :=
  decide (s.gradeOf u.id = .not) && s.program.belongsTo core u

/-- Whether a unit of the core is left undecided. -/
def undecided (s : Session) (core : List String) (u : CodeUnit) : Bool :=
  (s.gradeOf u.id).isTemporary && s.program.belongsTo core u

end Session

section Lists

variable (s : Session) (summary : RunSummary) (core : List String)

theorem violations_ofSession : (AxisReport.ofSession s summary core).violations =
    (s.program.units.toList.filter (s.failed core)).map s.row := by
  simp only [AxisReport.ofSession, List.filter_filter]
  rfl

theorem violations_names : (AxisReport.ofSession s summary core).violations.map Verdict.unit =
    (s.program.units.toList.filter (s.failed core)).map CodeUnit.qualified := by
  rw [violations_ofSession, List.map_map]
  rfl

theorem unresolved_ofSession : (AxisReport.ofSession s summary core).unresolved =
    (s.program.units.toList.filter (s.undecided core)).map CodeUnit.qualified := by
  simp only [AxisReport.ofSession, List.filter_filter]
  rfl

/-- What is listed of the core is listed in the order of all submitted units. -/
theorem core_sublist (test : CodeUnit → Bool) :
    (s.program.units.toList.filter fun u => test u && s.program.belongsTo core u).Sublist
      (s.program.units.toList.filter (·.submitted)) := by
  refine List.monotone_filter_right _ fun u hu => ?_
  exact ((s.program.belongsTo_iff core u).1 (Bool.and_eq_true_iff.1 hu).2).1

end Lists

namespace Session

section Reflects

variable {s : Session} (hs : s.Current)
include hs

theorem Current.query_of_mem {u : CodeUnit} (hu : u ∈ s.program.units) :
    s.query u.qualified = .ok (s.gradeOf u.id) := by
  have hat := hs.wellFormed.getElem?_of_mem hu
  have hfind : s.program.unitId? u.qualified = some u.id :=
    (findIdx?_eq_some_iff hs.wellFormed.unit_names).2 ⟨u, hat, rfl⟩
  rw [query, hfind]

/-- Units are told apart by their names. -/
theorem Current.eq_of_qualified {u v : CodeUnit} (hu : u ∈ s.program.units)
    (hv : v ∈ s.program.units) (h : u.qualified = v.qualified) : u = v := by
  have hu' := hs.wellFormed.getElem?_of_mem hu
  have hv' := hs.wellFormed.getElem?_of_mem hv
  have hid := hs.wellFormed.unit_names _ _ u v hu' hv' h
  rw [hid] at hu'
  exact Option.some.inj (hu'.symm.trans hv')

/-- The names of some of the units do not repeat. -/
theorem Current.names_nodup {us : List CodeUnit} (h : us.Sublist s.program.units.toList) :
    (us.map CodeUnit.qualified).Nodup :=
  (distinct_nodup hs.wellFormed.unit_names).sublist (h.map _)

/-- The name of a unit is on a list of names exactly if the unit was picked. -/
theorem Current.mem_names_iff {test : CodeUnit → Bool} {u : CodeUnit}
    (hu : u ∈ s.program.units) :
    u.qualified ∈ (s.program.units.toList.filter test).map CodeUnit.qualified ↔
      test u = true := by
  rw [List.mem_map]
  constructor
  · rintro ⟨v, hv, hname⟩
    rcases List.mem_filter.1 hv with ⟨hmem, htest⟩
    rw [← hs.eq_of_qualified (Array.mem_toList_iff.1 hmem) hu hname]
    exact htest
  · exact fun h => ⟨u, List.mem_filter.2 ⟨Array.mem_toList_iff.2 hu, h⟩, rfl⟩

/-- The row of a unit is on a list of rows exactly if the unit was picked. -/
theorem Current.mem_rows_iff {test : CodeUnit → Bool} {u : CodeUnit} (hu : u ∈ s.program.units)
    {classification : String} :
    { unit := u.qualified, classification } ∈ (s.program.units.toList.filter test).map s.row ↔
      test u = true ∧ classification = s.axis.label (s.gradeOf u.id) := by
  rw [List.mem_map]
  constructor
  · rintro ⟨v, hv, hrow⟩
    rcases List.mem_filter.1 hv with ⟨hmem, htest⟩
    rcases Verdict.mk.inj hrow with ⟨hname, hlabel⟩
    have hvu := hs.eq_of_qualified (Array.mem_toList_iff.1 hmem) hu hname
    subst hvu
    exact ⟨htest, hlabel.symm⟩
  · rintro ⟨htest, rfl⟩
    exact ⟨u, List.mem_filter.2 ⟨Array.mem_toList_iff.2 hu, htest⟩, rfl⟩

theorem Current.failed_iff (core : List String) {u : CodeUnit} (hu : u ∈ s.program.units) :
    s.failed core u = true ↔ s.program.InCore core u ∧ s.query u.qualified = .ok .not := by
  rw [failed, Bool.and_eq_true, s.program.belongsTo_iff, decide_eq_true_eq, hs.query_of_mem hu,
    Except.ok.injEq, and_comm]

variable (hlooked : s.Looked)
include hlooked

theorem Current.gradeOf_ne_unchecked {u : CodeUnit} (hu : u ∈ s.program.units)
    (hsub : u.submitted = true) : s.gradeOf u.id ≠ .unchecked :=
  hlooked u.id u (hs.wellFormed.getElem?_of_mem hu) hsub

/-- Once all is looked at, only unsure units are undecided. -/
theorem Current.undecided_iff (core : List String) {u : CodeUnit} (hu : u ∈ s.program.units) :
    s.undecided core u = true ↔ s.program.InCore core u ∧ s.query u.qualified = .ok .unsure := by
  rw [undecided, Bool.and_eq_true, s.program.belongsTo_iff, Grade.isTemporary_iff,
    hs.query_of_mem hu, Except.ok.injEq, and_comm]
  exact and_congr_right fun hcore => or_iff_right (hs.gradeOf_ne_unchecked hlooked hu hcore.1)

/-- A report is picked from the rows of all units that were submitted. -/
theorem Current.reflects_ofSession (summary : RunSummary) (core : List String) :
    (AxisReport.ofSession s summary core).Reflects core s
      ((s.program.units.toList.filter (·.submitted)).map s.row) := by
  constructor
  case rows_names => exact List.map_map
  case violations_sublist =>
    rw [violations_ofSession]
    exact (core_sublist s core _).map _
  case violations_nodup =>
    rw [violations_names]
    exact hs.names_nodup List.filter_sublist
  case mem_violations =>
    intro u hu classification
    rw [violations_ofSession, hs.mem_rows_iff hu, hs.failed_iff core hu, and_assoc]
    refine and_congr_right fun _ => and_congr_right fun hnot => ?_
    rw [hs.query_of_mem hu] at hnot
    rw [Except.ok.inj hnot]
    rfl
  case unresolved_sublist =>
    rw [unresolved_ofSession, List.map_map]
    exact (core_sublist s core _).map _
  case unresolved_nodup =>
    rw [unresolved_ofSession]
    exact hs.names_nodup List.filter_sublist
  case mem_unresolved =>
    intro u hu
    rw [unresolved_ofSession, hs.mem_names_iff hu, hs.undecided_iff hlooked core hu]
  case passed =>
    intro u hu hcore hfails hopen
    rw [violations_names, hs.mem_names_iff hu, hs.failed_iff core hu] at hfails
    rw [unresolved_ofSession, hs.mem_names_iff hu, hs.undecided_iff hlooked core hu] at hopen
    rw [hs.query_of_mem hu] at hfails hopen ⊢
    -- Two grades would have put the unit on a list, and one is left to nobody.
    cases hg : s.gradeOf u.id with
    | strict => exact Or.inl rfl
    | domain => exact Or.inr rfl
    | not => exact absurd ⟨hcore, by rw [hg]⟩ hfails
    | unsure => exact absurd ⟨hcore, by rw [hg]⟩ hopen
    | unchecked => exact absurd hg (hs.gradeOf_ne_unchecked hlooked hu hcore.1)
  case outside =>
    intro u hu hcore
    rw [violations_names, hs.mem_names_iff hu, hs.failed_iff core hu, unresolved_ofSession,
      hs.mem_names_iff hu, hs.undecided_iff hlooked core hu]
    exact ⟨fun h => hcore h.1, fun h => hcore h.1⟩
  case looked =>
    intro u hu hsub hc
    rw [hs.query_of_mem hu] at hc
    exact hs.gradeOf_ne_unchecked hlooked hu hsub (Except.ok.inj hc)

end Reflects

section Analyze

variable (axis : Axis) (catalog : CatalogConfig) (scope : List String) (maxRounds : Option Nat)
  (graph : Graph)

/-- The session that an analysis runs. -/
def loaded : Session :=
  let fresh := start axis (Catalog.ofConfig axis catalog) scope
  let limited := match maxRounds with
    | some n => fresh.limitRounds n
    | none => fresh
  limited.load graph

theorem analyze_eq : analyze axis catalog scope maxRounds graph =
    (loaded axis catalog scope maxRounds graph).run :=
  rfl

/-- Loading a graph, with or without a limit before it, is a history. -/
theorem loaded_history : (start axis (Catalog.ofConfig axis catalog) scope).performAll
    (maxRounds.toList.map .limitRounds ++ [.declare (.graph graph)]) =
      .ok (loaded axis catalog scope maxRounds graph) := by
  cases maxRounds <;> rfl

theorem loaded_narrowed : loaded axis catalog scope maxRounds graph =
    (loaded axis catalog [] maxRounds graph).narrowed scope := by
  cases maxRounds with
  | none => exact declare_narrowed scope (start axis _ []) (.graph graph)
  | some n => exact declare_narrowed scope ((start axis _ []).limitRounds n) (.graph graph)

theorem loaded_settings : (loaded axis catalog scope maxRounds graph).axis = axis ∧
    (loaded axis catalog scope maxRounds graph).log.scope = scope := by
  have hload : ∀ s : Session, (s.load graph).axis = s.axis ∧ (s.load graph).log = s.log :=
    fun s => ⟨(s.declare_settings (.graph graph)).1, (s.declare_settings (.graph graph)).2.2.2⟩
  cases maxRounds with
  | none => exact ⟨(hload _).1, congrArg Log.scope (hload _).2⟩
  | some n => exact ⟨(hload _).1, congrArg Log.scope (hload _).2⟩

theorem loaded_lawful : (loaded axis catalog scope maxRounds graph).Lawful := by
  have hstart := start_lawful axis (Catalog.ofConfig axis catalog) scope
  cases maxRounds with
  | none => exact declare_lawful hstart (.graph graph)
  | some n => exact declare_lawful (limitRounds_lawful hstart n) (.graph graph)

/-- A session with a scope and one without, loaded with the same graph and run once,
    differ in their logs. -/
theorem analyze_narrowed :
    ∃ s summary, analyze axis catalog [] maxRounds graph = .ok (s, summary) ∧
      analyze axis catalog scope maxRounds graph = .ok (s.narrowed scope, summary) ∧
      s.axis = axis ∧ s.Current ∧ s.Looked := by
  -- Before their runs the two sessions differ in the scope of empty logs.
  rcases loaded_settings axis catalog [] maxRounds graph with ⟨haxis, hscope⟩
  have hlawful := loaded_lawful axis catalog [] maxRounds graph
  rcases run_narrowed scope hlawful hscope with ⟨s, summary, hrun, _, hrun'⟩
  refine ⟨s, summary, hrun, ?_, ?_, run_current hlawful hrun, ?_⟩
  · rw [analyze_eq, loaded_narrowed]
    exact hrun'
  · exact (run_settings hlawful hrun).1.trans haxis
  · exact history_looked (loaded_history axis catalog [] maxRounds graph) hrun

end Analyze

end Session

/-- A session is that of a list of classifications along an axis: it has the catalogue and
    the limit of the configuration and no scope, has loaded the graph and was run once. -/
inductive Config.Classifies (config : Config) (graph : Graph) (s : Session)
    (summary : RunSummary) : Axis → Prop
  | purity (run : Session.analyze .purity config.purity [] config.maxRounds graph =
      .ok (s, summary)) : Classifies config graph s summary .purity
  | determinism (run : Session.analyze .determinism config.determinism [] config.maxRounds graph =
      .ok (s, summary)) : Classifies config graph s summary .determinism

/-- The rows of a list of classifications are those of its session. -/
theorem Config.Classifies.classifications_eq {config : Config} {axis : Axis} {graph : Graph}
    {s : Session} {summary : RunSummary} (h : config.Classifies graph s summary axis)
    (only : Option String) :
    Command.classifications config axis only graph = Command.verdicts s only := by
  cases h with
  | purity run =>
      rw [Command.classifications, catalogFor, run]
      rfl
  | determinism run =>
      rw [Command.classifications, catalogFor, run]
      rfl

namespace Architecture

/-- A check along an axis reflects the classifications along it. -/
theorem evaluateAxis_reflects (a : Architecture) (axis : Axis) (graph : Graph) :
    ∃ report, a.evaluateAxis axis graph = .ok report ∧ report.axis = axis ∧ ∃ s rows,
      Session.analyze report.axis (a.catalogOf report.axis) [] a.maxRounds graph =
        .ok (s, report.summary) ∧
      Command.verdicts s none = .ok rows ∧ report.Reflects a.core s rows := by
  rcases Session.analyze_narrowed axis (a.catalogOf axis) a.scope a.maxRounds graph with
    ⟨s, summary, hopen, hscoped, haxis, hcurrent, hlooked⟩
  subst haxis
  have hreflects := hcurrent.reflects_ofSession hlooked summary a.core
  refine ⟨AxisReport.ofSession (s.narrowed a.scope) summary a.core, ?_, rfl, s, _, hopen, rfl, ?_⟩
  · rw [evaluateAxis, hscoped]
    rfl
  · -- A report does not read the scope, and the log only into its diagnostics.
    exact { hreflects with }

/-- A check puts together its reports, the second one if it was asked for. -/
theorem evaluate_axes {a : Architecture} {graph : Graph} {purity determinism : AxisReport}
    (hpurity : a.evaluateAxis .purity graph = .ok purity)
    (hdeterminism : a.evaluateAxis .determinism graph = .ok determinism) :
    ∃ result, a.evaluate graph = .ok result ∧
      result.axes = if a.checkDeterminism then [purity, determinism] else [purity] := by
  rw [evaluate, hpurity, hdeterminism]
  cases a.checkDeterminism with
  | true => exact ⟨_, rfl, rfl⟩
  | false => exact ⟨_, rfl, rfl⟩

/-- A session without a scope that has the catalogue a rule takes from its configuration has
    the one that the configuration lists for the axis. -/
theorem classifies_of_analyze {config : Config} {axis : Axis} {graph : Graph} {s : Session}
    {summary : RunSummary}
    (h : Session.analyze axis ((ofConfig config).catalogOf axis) [] (ofConfig config).maxRounds
      graph = .ok (s, summary)) : config.Classifies graph s summary axis := by
  cases axis with
  | purity => exact .purity h
  | determinism => exact .determinism h

/-- The check of a configuration along an axis reflects the classifications that the
    configuration gives along it. -/
theorem evaluateAxis_ofConfig (config : Config) (axis : Axis) (graph : Graph) :
    ∃ report, (ofConfig config).evaluateAxis axis graph = .ok report ∧ report.axis = axis ∧
      ∃ s rows, config.Classifies graph s report.summary report.axis ∧
        Command.verdicts s none = .ok rows ∧
        Command.classifications config report.axis none graph = .ok rows ∧
        report.Reflects config.core s rows := by
  rcases (ofConfig config).evaluateAxis_reflects axis graph with
    ⟨report, hreport, haxis, s, rows, hrun, hrows, hreflects⟩
  have hsession := classifies_of_analyze hrun
  refine ⟨report, hreport, haxis, s, rows, hsession, hrows, ?_, hreflects⟩
  rw [hsession.classifications_eq]
  exact hrows

/-- A check and a list of classifications agree. The check of a program does not fail,
    and along every axis that counts its report lists, in the order of the rows that the
    other command has for the same configuration and without repetition, the units of the
    core that fail there, with the label they have there, and those that are unsure there.
    All other units of the core have passed there, and no unit is left that nobody has
    looked at. -/
theorem check_agrees_with_classify (config : Config) (graph : Graph) :
    ∃ result, (ofConfig config).evaluate graph = .ok result ∧
      result.axes.map AxisReport.axis =
        (if config.checkDeterminism then [.purity, .determinism] else [.purity]) ∧
      ∀ report ∈ result.axes, ∃ s rows,
        config.Classifies graph s report.summary report.axis ∧
        Command.verdicts s none = .ok rows ∧
        Command.classifications config report.axis none graph = .ok rows ∧
        report.Reflects config.core s rows := by
  rcases evaluateAxis_ofConfig config .purity graph with ⟨purity, hpurity, haxis, hreflects⟩
  rcases evaluateAxis_ofConfig config .determinism graph with
    ⟨determinism, hdeterminism, haxis', hreflects'⟩
  rcases evaluate_axes hpurity hdeterminism with ⟨result, hresult, haxes⟩
  refine ⟨result, hresult, ?_⟩
  rw [haxes, show (ofConfig config).checkDeterminism = config.checkDeterminism from rfl]
  by_cases hcheck : config.checkDeterminism = true
  · rw [if_pos hcheck, if_pos hcheck, List.map_cons, List.map_singleton, haxis, haxis']
    refine ⟨rfl, List.forall_mem_cons.2 ⟨hreflects, List.forall_mem_singleton.2 hreflects'⟩⟩
  · rw [if_neg hcheck, if_neg hcheck, List.map_singleton, haxis]
    exact ⟨rfl, List.forall_mem_singleton.2 hreflects⟩

end Architecture

end CoreShell
