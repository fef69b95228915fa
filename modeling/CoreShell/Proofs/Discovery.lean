import CoreShell.Config.Discovery
import CoreShell.Proofs.Paths
import Mathlib.Data.Nat.Find

/-!
# The Nearest Configuration

A search for a configuration goes up from a directory, reads a file in each, and takes the
first one that it can read and accept. So what it finds is settled by the directories on the
way up, of which it visits ten, and by which of them have an acceptable file. Whatever happens
to a file that is not acceptable before or after, to one behind an acceptable one, or to one
that is further up, the search ends with the same configuration.

That is first said of any way to read files. In a file tree, a change of one file can affect
every path that leads to it, and there may be several of them on the way up. But it affects no
other path: nothing is found behind a file, just as nothing is found behind a name that is not
there.

## Main definitions

* `Config.AcceptedIn`: A directory has an acceptable configuration file.
* `Config.Nearest`: The configuration that counts for a directory.
* `FileTree.SameBut`: Two trees that differ in one file.

## Theorems

* `Config.discover_eq_iff`: A search ends with the nearest configuration.
* `Config.discover_congr`: What a search does not depend on.
* `Workspace.SameBut.locate_iff`: A file is on the way to nothing else.
* `Workspace.discover_sameBut`: Changes of a file that a search does not depend on.
* `Config.discovery_picks_nearest`: The search, by files and directories.
-/

namespace CoreShell

namespace Config

/-- The configuration file of a directory can be read, has the right form and no fault. -/
def AcceptedIn (read : String → Except FileFault String) (directory : String)
    (config : Config) : Prop :=
  ∃ text, read (Path.join directory fileName) = .ok text ∧
    (Toml.parse? text).bind ofToml? = some config ∧ config.fault? = none

/-- The configuration that counts for a directory: the one in the first of ten directories on
    the way up that has an acceptable one, and the default if none has. -/
inductive Nearest (read : String → Except FileFault String) (start : String) : Config → Prop
  | found {n : Nat} {directory : String} {config : Config} (near : n < 10)
      (above : Path.Above start n directory) (accepted : AcceptedIn read directory config)
      (passed : ∀ i e c, i < n → Path.Above start i e → ¬ AcceptedIn read e c) :
      Nearest read start config
  | default (passed : ∀ i e c, i < 10 → Path.Above start i e → ¬ AcceptedIn read e c) :
      Nearest read start {}

theorem parse_eq_ok_iff (text : String) (config : Config) :
    parse text = .ok config ↔
      (Toml.parse? text).bind ofToml? = some config ∧ config.fault? = none := by
  rw [parse]
  rcases Toml.parse? text with _ | toml
  · simp
  rw [Option.bind_some]
  dsimp only
  rcases ofToml? toml with _ | c
  · simp
  · simp only [validate, Option.some.injEq]
    rcases hfault : c.fault? with _ | fault
    · simp only [Except.ok.injEq]
      constructor
      · rintro rfl
        exact ⟨rfl, hfault⟩
      · exact fun h => h.1
    · simp only [reduceCtorEq, false_iff]
      rintro ⟨rfl, hnone⟩
      rw [hnone] at hfault
      exact absurd hfault (by simp)

section Reading

variable {read : String → Except FileFault String} {start : String}

/-- What is accepted in a directory is what a search finds there. -/
theorem acceptedIn_iff (directory : String) (config : Config) :
    AcceptedIn read directory config ↔
      ∃ text, read (Path.join directory fileName) = .ok text ∧ parse text = .ok config := by
  simp only [AcceptedIn, parse_eq_ok_iff]

theorem firstIn_cons (directory : String) (rest : List String) :
    firstIn (m := Id) read (directory :: rest) =
      match read (Path.join directory fileName) with
      | .error _ => firstIn (m := Id) read rest
      | .ok text =>
        match parse text with
        | .error _ => firstIn (m := Id) read rest
        | .ok config => config :=
  rfl

theorem firstIn_of_accepted {directory : String} {config : Config}
    (h : AcceptedIn read directory config) (rest : List String) :
    firstIn (m := Id) read (directory :: rest) = config := by
  rcases (acceptedIn_iff directory config).1 h with ⟨text, hread, hparse⟩
  simp only [firstIn_cons, hread, hparse]

theorem firstIn_of_not_accepted {directory : String}
    (h : ∀ c, ¬ AcceptedIn read directory c) (rest : List String) :
    firstIn (m := Id) read (directory :: rest) = firstIn (m := Id) read rest := by
  simp only [acceptedIn_iff] at h
  rw [firstIn_cons]
  rcases hread : read (Path.join directory fileName) with fault | text
  · rfl
  · rcases hparse : parse text with fault | config
    · simp only [hparse]
    · exact absurd ⟨text, hread, hparse⟩ (h config)

/-- A search along directories ends with the first one that has an acceptable file. -/
theorem firstIn_eq_of_getElem? {directories : List String} {n : Nat} {directory : String}
    {config : Config} (hn : directories[n]? = some directory)
    (h : AcceptedIn read directory config)
    (hpassed : ∀ i e c, i < n → directories[i]? = some e → ¬ AcceptedIn read e c) :
    firstIn (m := Id) read directories = config := by
  induction directories generalizing n with
  | nil => exact absurd hn (by simp)
  | cons first rest ih =>
      cases n with
      | zero =>
          rw [List.getElem?_cons_zero, Option.some.injEq] at hn
          rw [hn]
          exact firstIn_of_accepted h rest
      | succ n =>
          rw [firstIn_of_not_accepted fun c => hpassed 0 first c (Nat.succ_pos n) rfl]
          refine ih hn fun i e c hi he => hpassed (i + 1) e c (Nat.succ_lt_succ hi) ?_
          rw [List.getElem?_cons_succ]
          exact he

/-- A search along directories without an acceptable file ends with the default. -/
theorem firstIn_eq_default {directories : List String}
    (h : ∀ e ∈ directories, ∀ c, ¬ AcceptedIn read e c) :
    firstIn (m := Id) read directories = {} := by
  induction directories with
  | nil => rfl
  | cons first rest ih =>
      rw [firstIn_of_not_accepted (h first List.mem_cons_self)]
      exact ih fun e he => h e (List.mem_cons_of_mem first he)

theorem Nearest.discover_eq {config : Config} (h : Nearest read start config) :
    discover (m := Id) read start = config := by
  cases h with
  | @found n directory _ hnear habove haccepted hpassed =>
      refine firstIn_eq_of_getElem? (n := n)
        ((Path.getElem?_ancestors _ _ _ _).2 ⟨hnear, habove⟩) haccepted fun i e c hi he => ?_
      exact hpassed i e c hi ((Path.getElem?_ancestors _ _ _ _).1 he).2
  | default hpassed =>
      refine firstIn_eq_default fun e he c => ?_
      rcases List.mem_iff_getElem?.1 he with ⟨i, hi⟩
      rcases (Path.getElem?_ancestors _ _ _ _).1 hi with ⟨hlt, habove⟩
      exact hpassed i e c hlt habove

/-- There always is a configuration that counts. -/
theorem exists_nearest (read : String → Except FileFault String) (start : String) :
    ∃ config, Nearest read start config := by
  by_cases hsome : ∃ n, ∃ directory config, n < 10 ∧ Path.Above start n directory ∧
      AcceptedIn read directory config
  · -- Of all directories with an acceptable file, the one with the least number is first.
    classical
    rcases Nat.find_spec hsome with ⟨directory, config, hnear, habove, haccepted⟩
    refine ⟨config, .found hnear habove haccepted fun i e c hi he hc => ?_⟩
    exact Nat.find_min hsome hi ⟨e, c, hi.trans hnear, he, hc⟩
  · refine ⟨{}, .default fun i e c hi he hc => ?_⟩
    exact hsome ⟨i, e, c, hi, he, hc⟩

/-- A search ends with the nearest configuration. -/
theorem discover_eq_iff (config : Config) :
    discover (m := Id) read start = config ↔ Nearest read start config := by
  refine ⟨fun h => ?_, Nearest.discover_eq⟩
  rcases exists_nearest read start with ⟨c, hc⟩
  rw [← h, hc.discover_eq]
  exact hc

/-- A search does not depend on files that are accepted on neither side, on those behind a
    file that is accepted on both, or on those that are too far up. -/
theorem discover_congr {read' : String → Except FileFault String}
    (h : ∀ n directory, n < 10 → Path.Above start n directory →
      (∀ c, AcceptedIn read' directory c ↔ AcceptedIn read directory c) ∨
        ∃ i e c, i < n ∧ Path.Above start i e ∧ AcceptedIn read e c ∧ AcceptedIn read' e c) :
    discover (m := Id) read' start = discover (m := Id) read start := by
  rcases exists_nearest read start with ⟨config, hconfig⟩
  rw [hconfig.discover_eq, discover_eq_iff]
  cases hconfig with
  | @found n directory _ hnear habove haccepted hpassed =>
      -- Up to the directory that was found, nothing is behind an acceptable file.
      have hsame : ∀ i e, i ≤ n → Path.Above start i e →
          ∀ c, AcceptedIn read' e c ↔ AcceptedIn read e c := by
        intro i e hi he
        rcases h i e (Nat.lt_of_le_of_lt hi hnear) he with hiff | ⟨j, f, c, hj, hf, hc, _⟩
        · exact hiff
        · exact absurd hc (hpassed j f c (Nat.lt_of_lt_of_le hj hi) hf)
      refine .found hnear habove ((hsame n directory (Nat.le_refl n) habove config).2 haccepted) ?_
      intro i e c hi he hc
      exact hpassed i e c hi he ((hsame i e (Nat.le_of_lt hi) he c).1 hc)
  | default hpassed =>
      refine .default fun i e c hi he hc => ?_
      rcases h i e hi he with hiff | ⟨j, f, d, hj, hf, hd, _⟩
      · exact hpassed i e c hi he ((hiff c).1 hc)
      · exact hpassed j f d (hj.trans hi) hf hd

end Reading

end Config

namespace FileTree

/-- Two trees that differ in at most one place, where neither has a directory: a file was
    added, changed or removed. -/
structure SameBut (place : List String) (t t' : FileTree) : Prop where
  elsewhere : ∀ p, p ≠ place → t'.node? p = t.node? p
  before : t.hasDirectory place = false
  after : t'.hasDirectory place = false

theorem ne_nil_of_hasDirectory {t : FileTree} {place : List String}
    (h : t.hasDirectory place = false) : place ≠ [] := by
  rintro rfl
  exact absurd h (by simp [hasDirectory, node?])

theorem node?_of_ne_nil (t : FileTree) {place : List String} (h : place ≠ []) :
    t.node? place = t.nodes.lookup place := by
  rw [node?, if_neg (by simpa using h)]

/-- Replacing all entries for a place leaves the others as they are. -/
theorem lookup_replace (nodes : List (List String × FileNode)) (place p : List String)
    (node : FileNode) :
    (nodes.map fun n => if n.1 = place then (place, node) else n).lookup p =
      if p = place then (nodes.lookup place).map fun _ => node else nodes.lookup p := by
  induction nodes with
  | nil => simp
  | cons first rest ih =>
      rw [List.map_cons, List.lookup_cons, ih, List.lookup_cons, List.lookup_cons]
      by_cases hfirst : first.1 = place
      · by_cases hp : p = place
        · simp [hfirst, hp]
        · have hne : (p == place) = false := by simpa using hp
          simp [hfirst, hp, hne]
      · have hother : (place == first.1) = false := by simpa using Ne.symm hfirst
        by_cases hp : p = place
        · simp [hfirst, hp, hother]
        · simp [hfirst, hp]

theorem lookup_eq_none_of_any {nodes : List (List String × FileNode)} {place : List String} :
    nodes.lookup place = none ↔ ¬ nodes.any (·.1 = place) = true := by
  induction nodes with
  | nil => simp
  | cons first rest ih =>
      rw [List.lookup_cons, List.any_cons]
      by_cases hfirst : first.1 = place
      · simp [hfirst]
      · have hother : (place == first.1) = false := by simpa using Ne.symm hfirst
        simp [hfirst, hother, ih]

theorem node?_put (t : FileTree) {place : List String} (h : place ≠ []) (node : FileNode)
    (p : List String) :
    (t.put place node).node? p = if p = place then some node else t.node? p := by
  by_cases hroot : p = []
  · rw [hroot, if_neg (Ne.symm h)]
    rfl
  rw [node?_of_ne_nil _ hroot, node?_of_ne_nil t hroot, put]
  rcases hfound : t.nodes.lookup place with _ | old
  · -- A new place comes last, where it is found.
    rw [if_neg (lookup_eq_none_of_any.1 hfound), List.lookup_append]
    by_cases hp : p = place
    · rw [hp, hfound]
      simp
    · have hne : (p == place) = false := by simpa using hp
      simp [hp, hne, List.lookup_cons]
  · have hany : t.nodes.any (·.1 = place) = true := by
      by_contra hc
      rw [lookup_eq_none_of_any.2 hc] at hfound
      exact absurd hfound (by simp)
    simp only [if_pos hany, lookup_replace, hfound, Option.map_some]

/-- Putting a file where there is no directory changes nothing else. -/
theorem sameBut_put {t : FileTree} {place : List String} (h : t.hasDirectory place = false)
    (bytes : ByteArray) : SameBut place t (t.put place (.file bytes)) := by
  have hne := ne_nil_of_hasDirectory h
  refine ⟨fun p hp => ?_, h, ?_⟩
  · rw [node?_put t hne, if_neg hp]
  · rw [hasDirectory, node?_put t hne, if_pos rfl]

theorem SameBut.hasDirectory_eq {place : List String} {t t' : FileTree} (h : SameBut place t t')
    (p : List String) : t'.hasDirectory p = t.hasDirectory p := by
  by_cases hp : p = place
  · rw [hp, h.before, h.after]
  · rw [hasDirectory, h.elsewhere p hp, hasDirectory]

end FileTree

namespace Workspace

/-- Two workspaces with the same current directory whose trees differ in one file. -/
structure SameBut (place : List String) (w w' : Workspace) : Prop where
  directory : w'.directory = w.directory
  tree : FileTree.SameBut place w.tree w'.tree
  /-- The file is not where the current directory is or was. -/
  outside : place ≠ w.directory

theorem SameBut.symm {place : List String} {w w' : Workspace} (h : SameBut place w w') :
    SameBut place w' w :=
  { directory := h.directory.symm
    tree := ⟨fun p hp => (h.tree.elsewhere p hp).symm, h.tree.after, h.tree.before⟩
    outside := by rw [h.directory]; exact h.outside }

/-- A path does not go on behind what is no directory. -/
theorem eq_of_follow {w : Workspace} {place q : List String} {names : List String}
    (h : w.tree.hasDirectory place = false) (hplace : place ≠ w.directory)
    (hfollow : w.follow place names = .ok q) : q = place := by
  cases names with
  | nil =>
      rw [follow, Except.ok.injEq] at hfollow
      exact hfollow.symm
  | cons name rest =>
      rw [follow, node?, if_neg hplace] at hfollow
      rw [FileTree.hasDirectory] at h
      rcases hnode : w.tree.node? place with _ | ⟨_ | _⟩ <;> simp [hnode] at h hfollow

theorem into_iff {found : Bool} {rest : Except FileFault (List String)} {q : List String} :
    (if found = true then rest else .error .notFound) = .ok q ↔ found = true ∧ rest = .ok q := by
  cases found <;> simp

theorem walk_eq_ok_iff (w : Workspace) (path : String) (names q : List String) :
    w.walk path names = .ok q ↔
      pathFault? path = none ∧ w.follow (w.startOf path) names = .ok q := by
  rw [walk]
  rcases pathFault? path with _ | fault <;> simp

theorem locate_eq_ok_iff (w : Workspace) (path : String) (q : List String) :
    w.locate path = .ok q ↔ w.walk path (Path.names path) = .ok q ∧
      (Path.endsInSlash path = true → ∀ bytes, w.node? q ≠ some (.file bytes)) := by
  rw [locate]
  rcases w.walk path (Path.names path) with fault | p
  · simp [bind, Except.bind]
  · simp only [bind, Except.bind, Except.ok.injEq]
    rcases hnode : w.node? p with _ | ⟨_ | bytes⟩
    · simp only [Except.ok.injEq]
      constructor
      · rintro rfl
        simp [hnode]
      · exact fun hq => hq.1
    · simp only [Except.ok.injEq]
      constructor
      · rintro rfl
        simp [hnode]
      · exact fun hq => hq.1
    · by_cases hslash : Path.endsInSlash path = true
      · simp only [hslash, if_true, forall_const, reduceCtorEq, false_iff]
        rintro ⟨rfl, hfile⟩
        exact hfile bytes hnode
      · simp [hslash]

theorem read_eq_ok_iff (w : Workspace) (path text : String) :
    w.read path = .ok text ↔ ∃ q bytes, w.locate path = .ok q ∧
      w.node? q = some (.file bytes) ∧ String.fromUTF8? bytes = some text := by
  rw [read]
  rcases w.locate path with fault | p
  · simp [bind, Except.bind]
  · simp only [bind, Except.bind, Except.ok.injEq, exists_and_left, exists_eq_left']
    rcases w.node? p with _ | ⟨_ | bytes⟩
    · simp
    · simp
    · rcases htext : String.fromUTF8? bytes with _ | t <;> simp [htext]

section SameBut

variable {place : List String} {w w' : Workspace} (h : SameBut place w w')
include h

theorem SameBut.node?_eq {p : List String} (hp : p ≠ place) : w'.node? p = w.node? p := by
  rw [node?, node?, h.directory, h.tree.elsewhere p hp]

theorem SameBut.child_eq (parent : List String) (name : String) :
    w'.child parent name = w.child parent name := by
  rw [child, child, h.tree.hasDirectory_eq]

/-- A path that leads elsewhere in one of two workspaces leads there in both. -/
theorem SameBut.follow_iff (p : List String) (names : List String) {q : List String}
    (hq : q ≠ place) : w'.follow p names = .ok q ↔ w.follow p names = .ok q := by
  have hstop : ∀ rest, w.follow place rest ≠ .ok q ∧ w'.follow place rest ≠ .ok q := by
    intro rest
    refine ⟨fun hc => hq (eq_of_follow h.tree.before h.outside hc), fun hc => hq ?_⟩
    exact eq_of_follow h.tree.after h.symm.outside hc
  induction names generalizing p with
  | nil => rfl
  | cons name rest ih =>
      by_cases hp : p = place
      · rw [hp]
        exact iff_of_false (hstop _).2 (hstop _).1
      rw [follow, follow, h.node?_eq hp, h.child_eq]
      rcases w.node? p with _ | ⟨_ | _⟩
      · simp
      · by_cases hdot : name = "."
        · simpa only [if_pos hdot] using ih p
        by_cases hdots : name = ".."
        · simpa only [if_neg hdot, if_pos hdots] using ih p.dropLast
        simp only [if_neg hdot, if_neg hdots]
        rcases w.child p name with fault | next
        · simp
        · simp only [into_iff]
          by_cases hnext : next = place
          · -- Whether or not the file is there, the path ends with it.
            rw [hnext]
            exact iff_of_false (fun hc => (hstop rest).2 hc.2) fun hc => (hstop rest).1 hc.2
          · rw [h.tree.elsewhere next hnext]
            exact and_congr_right fun _ => ih next
      · simp

theorem SameBut.locate_iff (path : String) {q : List String} (hq : q ≠ place) :
    w'.locate path = .ok q ↔ w.locate path = .ok q := by
  have hstart : w'.startOf path = w.startOf path := by
    rw [startOf, startOf, h.directory]
  rw [locate_eq_ok_iff, locate_eq_ok_iff, walk_eq_ok_iff, walk_eq_ok_iff, hstart,
    h.follow_iff _ _ hq, h.node?_eq hq]

/-- A path that does not lead to the file is read alike. -/
theorem SameBut.read_iff {path : String} (hpath : w.locate path ≠ .ok place)
    (hpath' : w'.locate path ≠ .ok place) (text : String) :
    w'.read path = .ok text ↔ w.read path = .ok text := by
  rw [read_eq_ok_iff, read_eq_ok_iff]
  refine exists_congr fun q => exists_congr fun bytes => ?_
  by_cases hq : q = place
  · rw [hq]
    exact iff_of_false (fun hc => hpath' hc.1) fun hc => hpath hc.1
  · rw [h.locate_iff path hq, h.node?_eq hq]

end SameBut

/-- The configuration file of a directory is at a place. -/
def HasFileAt (w : Workspace) (directory : String) (place : List String) : Prop :=
  w.locate (Path.join directory Config.fileName) = .ok place

instance (w : Workspace) (directory : String) (place : List String) :
    Decidable (w.HasFileAt directory place) :=
  inferInstanceAs (Decidable (_ = _))

/-- What is accepted in a directory does not change with a file that is not its own. -/
theorem SameBut.acceptedIn_iff {place : List String} {w w' : Workspace} (h : SameBut place w w')
    {directory : String} (hw : ¬ w.HasFileAt directory place)
    (hw' : ¬ w'.HasFileAt directory place) (config : Config) :
    Config.AcceptedIn w'.read directory config ↔ Config.AcceptedIn w.read directory config := by
  simp only [Config.AcceptedIn, h.read_iff hw hw']

/-- A file that is not at the place in one of two workspaces is not there in the other. -/
theorem SameBut.hasFileAt_of_accepted {place : List String} {w w' : Workspace}
    (h : SameBut place w w') {directory : String} {config : Config}
    (haccepted : Config.AcceptedIn w.read directory config)
    (hw : ¬ w.HasFileAt directory place) : ¬ w'.HasFileAt directory place := by
  rcases haccepted with ⟨text, hread, _⟩
  rcases (read_eq_ok_iff w _ text).1 hread with ⟨q, _, hlocate, _⟩
  have hq : q ≠ place := by
    rintro rfl
    exact hw hlocate
  intro hc
  have hsame := hc.symm.trans ((h.locate_iff _ hq).2 hlocate)
  exact hq (Except.ok.inj hsame).symm

/-- A search does not depend on a file that is acceptable neither before nor after, that is
    behind another one, or that is on none of the directories it visits. -/
theorem discover_sameBut {place : List String} {w w' : Workspace} (h : SameBut place w w')
    {start : String}
    (hhidden : ∀ n directory, n < 10 → Path.Above start n directory →
      w.HasFileAt directory place ∨ w'.HasFileAt directory place →
        (∀ c, ¬ Config.AcceptedIn w.read directory c ∧ ¬ Config.AcceptedIn w'.read directory c) ∨
        ∃ i e c, i < n ∧ Path.Above start i e ∧ Config.AcceptedIn w.read e c ∧
          ¬ w.HasFileAt e place) :
    Config.discover (m := Id) w'.read start = Config.discover (m := Id) w.read start := by
  refine Config.discover_congr fun n directory hn habove => ?_
  by_cases hfile : w.HasFileAt directory place ∨ w'.HasFileAt directory place
  · rcases hhidden n directory hn habove hfile with hnever | ⟨i, e, c, hi, he, hc, hother⟩
    · exact Or.inl fun c => iff_of_false (hnever c).2 (hnever c).1
    · have hother' := h.hasFileAt_of_accepted hc hother
      exact Or.inr ⟨i, e, c, hi, he, hc, (h.acceptedIn_iff hother hother' c).2 hc⟩
  · rw [not_or] at hfile
    exact Or.inl fun c => h.acceptedIn_iff hfile.1 hfile.2 c

/-- A search in a workspace changes nothing and finds what reading its files tells. -/
theorem discover_access (w : Workspace) (start : String) :
    Config.discover access.read start w = (Config.discover (m := Id) w.read start, w) := by
  rw [Config.discover, Config.discover]
  induction Path.ancestors Config.searchDepth start with
  | nil => rfl
  | cons directory rest ih =>
      have hstep : Config.firstIn access.read (directory :: rest) w =
          (match w.read (Path.join directory Config.fileName) with
          | .error _ => Config.firstIn access.read rest
          | .ok text =>
            match Config.parse text with
            | .error _ => Config.firstIn access.read rest
            | .ok config => pure config) w :=
        rfl
      rw [hstep, Config.firstIn_cons]
      rcases w.read (Path.join directory Config.fileName) with fault | text
      · exact ih
      · dsimp only
        rcases Config.parse text with fault | config
        · exact ih
        · rfl

end Workspace

namespace Config

/-- A search ends with the configuration in the first directory on the way up that has an
    acceptable file, of at most ten, and with the default if there is none. The way up takes
    off the last component of a path, and ends with the root or the empty path. The search
    does not depend on files that are not acceptable, on those behind an acceptable one or on
    those further up, however files are read, and neither does it if a file in a tree is
    added, changed or removed. -/
theorem discovery_picks_nearest :
    (∀ (read : String → Except FileFault String) (start : String) (config : Config),
      discover (m := Id) read start = config ↔ Nearest read start config) ∧
    (∀ (w : Workspace) (start : String),
      discover Workspace.access.read start w = (discover (m := Id) w.read start, w)) ∧
    (∀ path : String,
      (Path.parent? path).map Path.components =
        (if Path.components path = [] ∨ Path.components path = [['/']] then none
        else some (Path.components path).dropLast) ∧
      ∀ parent, Path.parent? path = some parent → parent.toList <+: path.toList) ∧
    (∀ (read read' : String → Except FileFault String) (start : String),
      (∀ n directory, n < 10 → Path.Above start n directory →
        (∀ c, AcceptedIn read' directory c ↔ AcceptedIn read directory c) ∨
        ∃ i e c, i < n ∧ Path.Above start i e ∧ AcceptedIn read e c ∧ AcceptedIn read' e c) →
      discover (m := Id) read' start = discover (m := Id) read start) ∧
    ∀ (place : List String) (w w' : Workspace) (start : String), Workspace.SameBut place w w' →
      (∀ n directory, n < 10 → Path.Above start n directory →
        w.HasFileAt directory place ∨ w'.HasFileAt directory place →
          (∀ c, ¬ AcceptedIn w.read directory c ∧ ¬ AcceptedIn w'.read directory c) ∨
          ∃ i e c, i < n ∧ Path.Above start i e ∧ AcceptedIn w.read e c ∧
            ¬ w.HasFileAt e place) →
      (discover Workspace.access.read start w').1 = (discover Workspace.access.read start w).1 := by
  refine ⟨fun read start config => discover_eq_iff config, Workspace.discover_access,
    fun path => ⟨Path.components_parent? path, fun _ => Path.parent?_prefix⟩,
    fun read read' start => discover_congr, fun place w w' start h hhidden => ?_⟩
  rw [Workspace.discover_access, Workspace.discover_access]
  exact Workspace.discover_sameBut h hhidden

/-- A project with a configuration and a directory below it. -/
def projectTree : FileTree :=
  { nodes := [(["p"], .directory), (["p", "q"], .directory),
      (["p", ".funcore.toml"], .file "[architecture]\ncore = [\"app.\"]\n".toUTF8)] }

/-- A file that cannot be accepted is added below the configuration that counts. -/
theorem discovery_picks_nearest_brokenFile :
    let w : Workspace := { tree := projectTree }
    let broken : Workspace :=
      { tree := projectTree.put ["p", "q", ".funcore.toml"] (.file "[architecture\n".toUTF8) }
    (discover Workspace.access.read "/p/q" broken).1 =
        (discover Workspace.access.read "/p/q" w).1 ∧
      Nearest w.read "/p/q" { core := ["app."] } := by
  intro w broken
  rcases discovery_picks_nearest with ⟨hnearest, _, _, _, hfile⟩
  have hsame : Workspace.SameBut ["p", "q", ".funcore.toml"] w broken :=
    ⟨rfl, FileTree.sameBut_put (by decide +kernel) _, by decide⟩
  constructor
  · refine hfile _ w broken "/p/q" hsame fun n directory hn habove hat => Or.inl fun c => ?_
    have hdirectory : directory ∈ Path.ancestors 10 "/p/q" :=
      List.mem_of_getElem? ((Path.getElem?_ancestors 10 "/p/q" n directory).2 ⟨hn, habove⟩)
    -- Only the first directory has the file, and it is missing before and rejected after.
    have hfirst : ∀ d ∈ Path.ancestors 10 "/p/q", w.HasFileAt d ["p", "q", ".funcore.toml"] ∨
        broken.HasFileAt d ["p", "q", ".funcore.toml"] → d = "/p/q" := by
      decide +kernel
    rw [hfirst directory hdirectory hat]
    have hbefore : w.read (Path.join "/p/q" fileName) = .error .notFound := by decide +kernel
    have hafter : broken.read (Path.join "/p/q" fileName) = .ok "[architecture\n" := by
      decide +kernel
    constructor
    · rintro ⟨text, hread, _⟩
      exact absurd (hbefore.symm.trans hread) (by simp)
    · rintro ⟨text, hread, hparse, _⟩
      rw [← Except.ok.inj (hafter.symm.trans hread),
        show (Toml.parse? "[architecture\n").bind ofToml? = none by decide +kernel] at hparse
      exact absurd hparse (by simp)
  · exact (hnearest _ _ _).1 (show @Eq Config _ _ by decide +kernel)

end Config

end CoreShell
