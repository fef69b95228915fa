import CoreShell.Command.Call
import CoreShell.Proofs.Agreement
import CoreShell.Proofs.Discovery
import CoreShell.Proofs.Texts

/-!
# Layers from the Command Line

A configuration is looked through when it is read, so every configuration that a command
starts from is sound: no entry is blank, no entry is listed for both layers, and a run has a
round. A check may then put other layers in the place of the configured ones, and nobody looks
at those. Whether the rule that the check evaluates is still sound depends on the lists that
were given, and `CheckOptions.Fits` says how.

A check complains about a configuration exactly if it cannot start from one. Lists that do
not fit are evaluated like any others: with a comma too many, the core gets an empty entry,
every name begins with that, and units of the shell are held to the rules of the core.
`trailing_comma_widens_core` is such a call.

## Main definitions

* `Text.Blank`: A text of nothing but blanks.
* `Config.Sound`: A configuration without a fault.
* `CheckOptions.Fits`: Layers that keep a configuration sound.
* `Command.checkWith`, `Command.deliver`: What a check does with a configuration, and with
  its result.
* `Command.AcceptsConfig`: A part of a command that never complains about a configuration.

## Theorems

* `Config.fault?_eq_none_iff`: The sound configurations are those that are accepted.
* `Config.resolve_access`: A command starts from a sound configuration.
* `Command.override_sound_iff`: When other layers keep a configuration sound.
* `Command.acceptsConfig_bind`: Parts that do not complain, one after the other.
* `Command.check_run_of_error`, `Command.check_run_of_ok`: A check by what it starts from.
* `Command.overrides_go_unchecked`: Which rules a check evaluates.
-/

namespace CoreShell

/-- A text of nothing but blanks. -/
def Text.Blank (cs : List Char) : Prop :=
  ∀ c ∈ cs, isBlank c = true

theorem Text.trim_eq_nil_iff (cs : List Char) : trim cs = [] ↔ Blank cs := by
  rw [trim, List.reverse_eq_nil_iff, List.dropWhile_eq_nil_iff]
  constructor
  · intro h
    -- What is left in front would begin with a character that is both blank and not.
    have hfront : cs.dropWhile isBlank = [] := by
      rcases hrest : cs.dropWhile isBlank with _ | ⟨c, rest⟩
      · rfl
      · have hnot : isBlank c = false :=
          not_isBlank_of_mem_head?_dropWhile (by rw [hrest]; rfl)
        have hblank : isBlank c = true :=
          h c (by rw [hrest, List.mem_reverse]; exact List.mem_cons_self)
        exact absurd (hnot.symm.trans hblank) (by simp)
    exact List.dropWhile_eq_nil_iff.1 hfront
  · intro h c hc
    exact h c ((List.dropWhile_sublist isBlank).subset (List.mem_reverse.1 hc))

/-- A configuration without a fault. -/
structure Config.Sound (c : Config) : Prop where
  /-- No entry of a layer or a catalogue is blank. -/
  entries : ∀ entry ∈ c.entries, ¬ Text.Blank entry.toList
  /-- No entry is listed for both layers. -/
  layers : ∀ entry ∈ c.core, entry ∉ c.shell
  /-- A run has a round. -/
  rounds : c.maxRounds ≠ some 0

/-- The layers that a check puts in the place of the configured ones have no blank entry, and
    no entry in common with each other or with the layer that stays. -/
structure CheckOptions.Fits (options : CheckOptions) (config : Config) : Prop where
  core : ∀ starts ∈ options.core, ∀ entry ∈ starts, ¬ Text.Blank entry.toList
  shell : ∀ starts ∈ options.shell, ∀ entry ∈ starts, ¬ Text.Blank entry.toList
  layers : ∀ entry ∈ options.core.getD config.core, entry ∉ options.shell.getD config.shell

/-- An action on a workspace goes on with what its first step has left. -/
theorem Workspace.bind_of_step {α β : Type} {x : StateM Workspace α} {f : α → StateM Workspace β}
    {w w' : Workspace} {a : α} (h : x w = (a, w')) : (x >>= f) w = f a w' := by
  change f (x w).1 (x w).2 = _
  rw [h]

namespace Config

/-- The sound configurations are those that are accepted. -/
theorem fault?_eq_none_iff (c : Config) : c.fault? = none ↔ c.Sound := by
  have hblank : (c.entries.any fun entry => (Text.trim entry.toList).isEmpty) = true ↔
      ¬ ∀ entry ∈ c.entries, ¬ Text.Blank entry.toList := by
    simp [List.isEmpty_iff, Text.trim_eq_nil_iff]
  have hshared : (c.core.find? fun entry => decide (entry ∈ c.shell)) = none ↔
      ∀ entry ∈ c.core, entry ∉ c.shell := by
    simp
  rw [fault?]
  constructor
  · intro h
    by_cases hany : (c.entries.any fun entry => (Text.trim entry.toList).isEmpty) = true
    · rw [if_pos hany] at h
      exact absurd h (by simp)
    · rw [if_neg hany] at h
      rcases hfind : c.core.find? fun entry => decide (entry ∈ c.shell) with _ | entry
      · rw [hfind] at h
        refine ⟨not_not.1 (mt hblank.2 hany), hshared.1 hfind, fun hrounds => ?_⟩
        exact absurd ((if_pos hrounds).symm.trans h) (by simp)
      · rw [hfind] at h
        exact absurd h (by simp)
  · intro h
    rw [if_neg (fun hany => hblank.1 hany h.entries), hshared.2 h.layers]
    exact if_neg h.rounds

theorem sound_default : ({} : Config).Sound :=
  (fault?_eq_none_iff {}).1 (by decide)

/-- A configuration that was read is sound. -/
theorem sound_of_parse {text : String} {config : Config} (h : parse text = .ok config) :
    config.Sound :=
  (fault?_eq_none_iff config).1 ((parse_eq_ok_iff text config).1 h).2

/-- So is the one that a search ends with, the default included. -/
theorem Nearest.sound {read : String → Except FileFault String} {start : String}
    {config : Config} (h : Nearest read start config) : config.Sound := by
  cases h with
  | found _ _ haccepted _ =>
      rcases haccepted with ⟨_, _, _, hfault⟩
      exact (fault?_eq_none_iff config).1 hfault
  | default _ => exact sound_default

/-- A command finds a sound configuration or none, and changes nothing on the way. -/
theorem resolve_access (w : Workspace) (named : Option String) :
    ∃ found, resolve Workspace.access named w = (found, w) ∧
      ∀ config, found = .ok config → config.Sound := by
  cases named with
  | some path =>
      have hstep : Workspace.access.read path w = (w.read path, w) := rfl
      rcases hread : w.read path with fault | text
      · rw [hread] at hstep
        have hload : resolve Workspace.access (some path) w =
            (.error (.unreadable path fault), w) := by
          rw [resolve, load, Workspace.bind_of_step hstep]
          rfl
        exact ⟨_, hload, fun config h => absurd h (by simp)⟩
      · rw [hread] at hstep
        have hload : resolve Workspace.access (some path) w = (parse text, w) := by
          rw [resolve, load, Workspace.bind_of_step hstep]
          rfl
        exact ⟨_, hload, fun config h => sound_of_parse h⟩
  | none =>
      have hstep : Workspace.access.currentDirectory w = (w.currentDirectory?, w) := rfl
      rcases hdirectory : w.currentDirectory? with _ | directory
      · rw [hdirectory] at hstep
        have hdefault : resolve Workspace.access none w = (.ok {}, w) := by
          rw [resolve, Workspace.bind_of_step hstep]
          rfl
        refine ⟨_, hdefault, fun config h => ?_⟩
        rw [← Except.ok.inj h]
        exact sound_default
      · rw [hdirectory] at hstep
        have hfound : resolve Workspace.access none w =
            (.ok (discover (m := Id) w.read directory), w) := by
          rw [resolve, Workspace.bind_of_step hstep]
          change (Except.ok (discover Workspace.access.read directory w).1,
            (discover Workspace.access.read directory w).2) = _
          rw [Workspace.discover_access]
        refine ⟨_, hfound, fun config h => ?_⟩
        exact ((discover_eq_iff config).1 (Except.ok.inj h)).sound

end Config

namespace Command

/-- What holds of the entries that stay holds of all, if it holds of those that were given. -/
theorem forall_mem_getD {good : String → Prop} {given : Option (List String)}
    {configured : List String} (h : ∀ entry ∈ configured, good entry) :
    (∀ entry ∈ given.getD configured, good entry) ↔
      ∀ starts ∈ given, ∀ entry ∈ starts, good entry := by
  cases given with
  | none => exact iff_of_true h (by simp)
  | some starts => simp

/-- When other layers keep a configuration sound. -/
theorem override_sound_iff (options : CheckOptions) {config : Config} (h : config.Sound) :
    (override options config).Sound ↔ options.Fits config := by
  have hbefore := h.entries
  simp only [Config.entries, List.forall_mem_append] at hbefore
  rcases hbefore with ⟨⟨⟨hcore, hshell⟩, hpurity⟩, hdeterminism⟩
  -- Catalogues stay as they are, so only the layers can bring in a blank entry.
  have hentries : (∀ entry ∈ (override options config).entries, ¬ Text.Blank entry.toList) ↔
      (∀ starts ∈ options.core, ∀ entry ∈ starts, ¬ Text.Blank entry.toList) ∧
      ∀ starts ∈ options.shell, ∀ entry ∈ starts, ¬ Text.Blank entry.toList := by
    simp only [Config.entries, override, List.forall_mem_append]
    rw [and_iff_left hdeterminism, and_iff_left hpurity, forall_mem_getD hcore,
      forall_mem_getD hshell]
  constructor
  · intro hrule
    rcases hentries.1 hrule.entries with ⟨hcore', hshell'⟩
    exact ⟨hcore', hshell', hrule.layers⟩
  · intro hfits
    exact ⟨hentries.2 ⟨hfits.core, hfits.shell⟩, hfits.layers, h.rounds⟩

section Parts

variable {α β : Type} {x : ExceptT Failure (StateM Workspace) α}
  {f : α → ExceptT Failure (StateM Workspace) β} {w w' : Workspace}

theorem lift_run (action : StateM Workspace α) (w : Workspace) :
    (ExceptT.lift action : ExceptT Failure (StateM Workspace) α).run w =
      (.ok (action w).1, (action w).2) :=
  rfl

theorem run_bind_of_ok {a : α} (h : x.run w = (.ok a, w')) :
    (x >>= f).run w = (f a).run w' :=
  Workspace.bind_of_step (f := ExceptT.bindCont f) h

theorem run_bind_of_error {failure : Failure} (h : x.run w = (.error failure, w')) :
    (x >>= f).run w = (.error failure, w') :=
  Workspace.bind_of_step (f := ExceptT.bindCont f) h

/-- Whatever the files are, a part of a command does not complain about a configuration. -/
def AcceptsConfig (x : ExceptT Failure (StateM Workspace) α) : Prop :=
  ∀ w text, (x.run w).1 ≠ .error (.error (.configuration text))

theorem acceptsConfig_pure (a : α) : AcceptsConfig (pure a) := by
  intro w text h
  exact absurd (show Except.ok a = _ from h) (by simp)

theorem acceptsConfig_throw {failure : Failure}
    (h : ∀ text, failure ≠ .error (.configuration text)) :
    AcceptsConfig (throw failure : ExceptT Failure (StateM Workspace) α) :=
  fun _ text hrun => h text (Except.error.inj hrun)

theorem acceptsConfig_lift (action : StateM Workspace α) :
    AcceptsConfig (ExceptT.lift action) := by
  intro w text
  rw [lift_run]
  simp

/-- Parts that do not complain, one after the other. -/
theorem acceptsConfig_bind (hx : AcceptsConfig x) (hf : ∀ a, AcceptsConfig (f a)) :
    AcceptsConfig (x >>= f) := by
  intro w text
  rcases hrun : x.run w with ⟨failure | a, w'⟩
  · rw [run_bind_of_error hrun]
    have hfirst := hx w text
    rw [hrun] at hfirst
    exact fun h => hfirst (congrArg Except.error (Except.error.inj h))
  · rw [run_bind_of_ok hrun]
    exact hf a w' text

theorem acceptsConfig_onFiles (action : StateM Workspace (Except FileFault α)) :
    AcceptsConfig (onFiles action) := by
  refine acceptsConfig_bind (acceptsConfig_lift action) fun result => ?_
  cases result with
  | ok result => exact acceptsConfig_pure result
  | error fault => exact acceptsConfig_throw (by simp)

end Parts

/-- What a check does with its result: the report goes out, and then violations count. -/
def deliver {m : Type → Type} [Monad m] (files : FileAccess m) (color : Bool)
    (options : CheckOptions) (result : Evaluation) : ExceptT Failure m Unit := do
  match options.format with
  | .json => writeJson files result.toJson options.output
  | .terminal => writeText files (Report.evaluation color result) options.output
  if result.hasViolations then throw (.violations result.violationCount)

/-- What a check does once it has a configuration. -/
def checkWith {m : Type → Type} [Monad m] (files : FileAccess m) (color : Bool)
    (options : CheckOptions) (config : Config) : ExceptT Failure m Unit := do
  let graph ← loadGraph files options.graph
  let result ← orFail (.evaluation options.graph)
    ((Architecture.ofConfig (override options config)).evaluate graph)
  deliver files color options result

theorem check_eq {m : Type → Type} [Monad m] (files : FileAccess m) (color : Bool)
    (options : CheckOptions) :
    check files color options = settings files options.config >>= checkWith files color options :=
  rfl

theorem acceptsConfig_writeJson (document : Json) (path : Option String) :
    AcceptsConfig (writeJson Workspace.access document path) := by
  cases path with
  | none => exact acceptsConfig_lift _
  | some path =>
      rw [writeJson]
      split
      · split
        · exact acceptsConfig_onFiles _
        · exact acceptsConfig_bind (acceptsConfig_onFiles _) fun _ => acceptsConfig_onFiles _
      · exact acceptsConfig_onFiles _

theorem acceptsConfig_writeText (text : String) (path : Option String) :
    AcceptsConfig (writeText Workspace.access text path) := by
  cases path with
  | none => exact acceptsConfig_lift _
  | some path => exact acceptsConfig_onFiles _

theorem acceptsConfig_deliver (color : Bool) (options : CheckOptions) (result : Evaluation) :
    AcceptsConfig (deliver Workspace.access color options result) := by
  have hend : AcceptsConfig (if result.hasViolations then
      throw (.violations result.violationCount) else pure () :
      ExceptT Failure (StateM Workspace) Unit) := by
    split
    · exact acceptsConfig_throw (by simp)
    · exact acceptsConfig_pure ()
  rw [deliver]
  split
  · exact acceptsConfig_bind (acceptsConfig_writeJson _ _) fun _ => hend
  · exact acceptsConfig_bind (acceptsConfig_writeText _ _) fun _ => hend

theorem acceptsConfig_loadGraph (path : String) :
    AcceptsConfig (loadGraph Workspace.access path) := by
  refine acceptsConfig_bind (acceptsConfig_lift _) fun content => ?_
  cases content with
  | error fault => exact acceptsConfig_throw (by simp [Error.inContext])
  | ok text =>
      dsimp only
      cases Graph.parse text with
      | error cause => exact acceptsConfig_throw (by simp)
      | ok graph => exact acceptsConfig_pure graph

/-- Once a check has a configuration, it does not complain about it, whatever it puts into
    it. -/
theorem acceptsConfig_checkWith (color : Bool) (options : CheckOptions) (config : Config) :
    AcceptsConfig (checkWith Workspace.access color options config) := by
  refine acceptsConfig_bind (acceptsConfig_loadGraph _) fun graph => ?_
  refine acceptsConfig_bind ?_ fun result => acceptsConfig_deliver color options result
  cases (Architecture.ofConfig (override options config)).evaluate graph with
  | ok result => exact acceptsConfig_pure result
  | error cause => exact acceptsConfig_throw (by simp)

section Check

variable {w : Workspace} (color : Bool) {options : CheckOptions}

theorem settings_run {named : Option String} {found : Except ConfigFault Config}
    (h : Config.resolve Workspace.access named w = (found, w)) :
    (settings Workspace.access named).run w =
      (found.mapError fun fault => .error fault.toError, w) := by
  have hlift := lift_run (Config.resolve Workspace.access named) w
  rw [h] at hlift
  rw [settings, run_bind_of_ok hlift]
  cases found with
  | error fault => rfl
  | ok config => rfl

/-- Without a configuration to start from, a check does nothing. -/
theorem check_run_of_error {fault : ConfigFault}
    (h : Config.resolve Workspace.access options.config w = (.error fault, w)) :
    (check Workspace.access color options).run w = (.error (.error fault.toError), w) := by
  rw [check_eq]
  exact run_bind_of_error (settings_run h)

/-- With one, it goes on from there. -/
theorem check_run_of_ok {config : Config}
    (h : Config.resolve Workspace.access options.config w = (.ok config, w)) :
    (check Workspace.access color options).run w =
      (checkWith Workspace.access color options config).run w := by
  rw [check_eq]
  exact run_bind_of_ok (settings_run h)

theorem loadGraph_run {path text : String} {graph : Graph} (hread : w.read path = .ok text)
    (hparse : Graph.parse? text = some graph) :
    (loadGraph Workspace.access path).run w = (.ok graph, w) := by
  have hlift : (ExceptT.lift (Workspace.access.read path) :
      ExceptT Failure (StateM Workspace) _).run w = (.ok (.ok text), w) := by
    rw [← hread]
    exact lift_run _ w
  rw [loadGraph, run_bind_of_ok hlift]
  dsimp only
  rw [(Graph.parse_eq_ok_iff text graph).2 hparse]
  rfl

/-- A graph is evaluated against the configuration with the layers that were given. -/
theorem checkWith_run (config : Config) {text : String} {graph : Graph}
    (hread : w.read options.graph = .ok text) (hparse : Graph.parse? text = some graph) :
    ∃ result, (Architecture.ofConfig (override options config)).evaluate graph = .ok result ∧
      (checkWith Workspace.access color options config).run w =
        (deliver Workspace.access color options result).run w := by
  let rule := Architecture.ofConfig (override options config)
  rcases rule.evaluateAxis_reflects .purity graph with ⟨purity, hpurity, _⟩
  rcases rule.evaluateAxis_reflects .determinism graph with ⟨determinism, hdeterminism, _⟩
  rcases Architecture.evaluate_axes hpurity hdeterminism with ⟨result, hresult, _⟩
  refine ⟨result, hresult, ?_⟩
  rw [checkWith, run_bind_of_ok (loadGraph_run hread hparse), hresult]
  exact run_bind_of_ok rfl

end Check

/-- Which rules a check evaluates. Without a configuration to start from, it says why and does
    nothing. The configuration it starts from is sound; with the layers that were given it is
    sound exactly if they fit. But whether they fit or not, the check does not complain about a
    configuration any more, and any graph that it can read is evaluated against the result. -/
theorem overrides_go_unchecked (w : Workspace) (color : Bool) (options : CheckOptions) :
    (∀ fault, (Config.resolve Workspace.access options.config w).1 = .error fault →
      (check Workspace.access color options).run w = (.error (.error fault.toError), w)) ∧
    ∀ config, (Config.resolve Workspace.access options.config w).1 = .ok config →
      config.Sound ∧
      ((override options config).Sound ↔ options.Fits config) ∧
      (∀ text, ((check Workspace.access color options).run w).1 ≠
        .error (.error (.configuration text))) ∧
      ∀ text graph, w.read options.graph = .ok text → Graph.parse? text = some graph →
        ∃ result, (Architecture.ofConfig (override options config)).evaluate graph = .ok result ∧
          (check Workspace.access color options).run w =
            (deliver Workspace.access color options result).run w := by
  rcases Config.resolve_access w options.config with ⟨found, hfound, hsound⟩
  rw [hfound]
  constructor
  · rintro fault rfl
    exact check_run_of_error color hfound
  · rintro config rfl
    have hconfig : config.Sound := hsound config rfl
    rw [check_run_of_ok color hfound]
    refine ⟨hconfig, override_sound_iff options hconfig, ?_, ?_⟩
    · exact acceptsConfig_checkWith color options config w
    · intro text graph hread hparse
      exact checkWith_run color config hread hparse

/-- A program with a single unit, outside of any core. -/
def shellText : String :=
  "\x7b\"units\":[\x7b\"owner\":\"app.shell.Main\",\"name\":\"main\",\"returns_void\":true\x7d]\x7d"

/-- A directory with the program and no configuration. -/
def shellWorkspace : Workspace :=
  { tree := { nodes := [(["graph.json"], .file shellText.toUTF8)] } }

/-- A missing configuration is complained about, an empty entry for the core is not. -/
theorem overrides_go_unchecked_shell :
    (check Workspace.access false { graph := "graph.json", config := some "own.toml" }).run
        shellWorkspace =
      (.error (.error (ConfigFault.unreadable "own.toml" .notFound).toError), shellWorkspace) ∧
    ¬ (override { graph := "graph.json", core := some ["app.core.", ""] } {}).Sound ∧
      ∃ graph result, Graph.parse? shellText = some graph ∧
        (Architecture.ofConfig { core := ["app.core.", ""] }).evaluate graph = .ok result ∧
        (check Workspace.access false
            { graph := "graph.json", core := some ["app.core.", ""] }).run shellWorkspace =
          (deliver Workspace.access false
            { graph := "graph.json", core := some ["app.core.", ""] } result).run
            shellWorkspace := by
  have hdefault : (Config.resolve Workspace.access none shellWorkspace).1 = .ok {} := by
    decide +kernel
  have hread : shellWorkspace.read "graph.json" = .ok shellText := by decide +kernel
  rcases Option.isSome_iff_exists.1
    (show (Graph.parse? shellText).isSome = true by decide +kernel) with ⟨graph, hparse⟩
  rcases (overrides_go_unchecked shellWorkspace false
    { graph := "graph.json", core := some ["app.core.", ""] }).2 {} hdefault with
    ⟨_, hiff, _, hevaluated⟩
  rcases hevaluated shellText graph hread hparse with ⟨result, hresult, hrun⟩
  refine ⟨?_, ?_, graph, result, hparse, hresult, hrun⟩
  · exact (overrides_go_unchecked shellWorkspace false
      { graph := "graph.json", config := some "own.toml" }).1 _ (by decide +kernel)
  · intro hsound
    exact (hiff.1 hsound).core _ rfl "" (by simp) (by simp [Text.Blank])

/-- A comma behind the only core package adds an empty entry to the core. No configuration may
    have that, but the call evaluates it, and a unit that had passed before is a violation. -/
theorem trailing_comma_widens_core :
    Invocation.ofArgs none ["check", "graph.json", "--core", "app.core.,"] =
        .ok (.check { graph := "graph.json", core := some ["app.core.", ""] }) ∧
      (override { graph := "graph.json", core := some ["app.core.", ""] } {}).fault? =
        some .blankEntry ∧
      (call Workspace.access false none ["check", "graph.json", "--core", "app.core.,"]
        shellWorkspace).1 = .failed (.violations 1) ∧
      (call Workspace.access false none ["check", "graph.json", "--core", "app.core."]
        shellWorkspace).1 = .finished := by
  decide +kernel

end Command

end CoreShell
