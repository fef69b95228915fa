import CoreShell.Command.Invocation

/-!
# Command Lines

Arguments are taken one after the other. An option has a long name, and some
have a letter; letters may be bundled behind one dash. A value follows its
option as the next argument, or is attached to it: behind an equals sign, or
right behind the letter. Two dashes end the options.

An attached value is looked at right away. A value in an argument of its own
is only looked at when the next known option, the next plain argument or the
end of the line is reached, so an unknown option behind it is noticed first.
The same holds for plain arguments.

## Main definitions

* `LineArg`: Everything that can be given.
* `LineArg.effect`: What giving it does.
* `LineSpec`: What a command knows.
* `LineState`: What was given so far.
* `LineState.take`: One more argument.
* `Invocation.ofArgs`: The invocation of a command line.
-/

namespace CoreShell

/-- Everything that can be given on a command line. -/
inductive LineArg where
  | help
  | version
  | graph
  | config
  | format
  | output
  | core
  | shell
  | noDeterminism
  | verbose
  | axis
  | unit
  | force
deriving DecidableEq, Inhabited

/-- What giving an argument does. -/
inductive LineEffect where
  /-- It ends the reading of the line with an answer of its own. -/
  | stops (fault : UsageFault)
  /-- It is a switch, which may be given once. -/
  | switch
  /-- It is a switch whose repetitions count. -/
  | counts
  /-- It has a value, which may be given once. -/
  | value
  /-- It has a list of values between commas, and repetitions add to it. -/
  | values
deriving DecidableEq, Inhabited

namespace LineArg

/-- What giving an argument does. -/
def effect : LineArg → LineEffect
  | help => .stops .help
  | version => .stops .version
  | noDeterminism | force => .switch
  | verbose => .counts
  | core | shell => .values
  | graph | config | format | output | axis | unit => .value

/-- Whether an argument has a value. -/
def hasValue (a : LineArg) : Bool :=
  a.effect = .value || a.effect = .values

/-- Whether a text can be the value of an argument. Paths must not be empty,
    and choices must be known. -/
def accepts : LineArg → String → Bool
  | graph, text | config, text | output, text => !text.isEmpty
  | format, text => text = "terminal" || text = "json"
  | axis, text => text = "purity" || text = "determinism"
  | _, _ => true

end LineArg

/-- What a command knows. -/
structure LineSpec where
  letters : List (Char × LineArg)
  words : List (String × LineArg)
  /-- What its only plain argument is, if it takes one. -/
  plain : Option LineArg := none

/-- What was given so far. -/
structure LineState where
  /-- Arguments with their values, in the order they were accepted. Switches
      have an empty value. -/
  given : List (LineArg × String) := []
  /-- The argument whose value is not looked at yet, with the value if it was
      given. -/
  waiting : Option (LineArg × Option String) := none
  /-- Whether the plain argument was given. -/
  plainTaken : Bool := false
  /-- Whether options have ended. -/
  ended : Bool := false

namespace LineState

/-- Whether an argument was accepted already. -/
def has (s : LineState) (a : LineArg) : Bool :=
  s.given.any (·.1 = a)

/-- Accept a value of an argument. -/
def accept (s : LineState) (a : LineArg) (text : String) : Except UsageFault LineState :=
  if a.effect = .value && s.has a then .error .repeated
  else if !a.accepts text then .error .badValue
  else .ok { s with given := s.given ++ [(a, text)] }

/-- Look at the value that waits, if there is one. -/
def settle (s : LineState) : Except UsageFault LineState :=
  match s.waiting with
  | none => .ok s
  | some (_, none) => .error .badValue
  | some (a, some text) => ({ s with waiting := none } : LineState).accept a text

/-- Take an option without a value. -/
def takeSwitch (s : LineState) (a : LineArg) : Except UsageFault LineState := do
  let s ← s.settle
  match a.effect with
  | .stops fault => .error fault
  | .switch => if s.has a then .error .repeated else .ok { s with given := s.given ++ [(a, "")] }
  | _ => .ok { s with given := s.given ++ [(a, "")] }

/-- Take an option with an attached value. -/
def takeAttached (s : LineState) (a : LineArg) (text : String) : Except UsageFault LineState := do
  let s ← s.settle
  s.accept a text

/-- Take an option whose value is to follow. -/
def takeDetached (s : LineState) (a : LineArg) : Except UsageFault LineState := do
  let s ← s.settle
  return { s with waiting := some (a, none) }

/-- Take a bundle of letters. The first of them with a value takes the rest of
    the bundle for it. -/
def takeLetters (spec : LineSpec) : LineState → List Char → Except UsageFault LineState
  | s, [] => .ok s
  | s, c :: rest =>
    match spec.letters.lookup c with
    | none => .error .unknownArgument
    | some a =>
      if !a.hasValue then do
        let s ← s.takeSwitch a
        takeLetters spec s rest
      else
        match rest with
        | [] => s.takeDetached a
        | '=' :: text => s.takeAttached a (String.ofList text)
        | text => s.takeAttached a (String.ofList text)

/-- Take an option by its long name, with the value behind an equals sign if
    there is one. -/
def takeWord (spec : LineSpec) (s : LineState) (text : List Char) :
    Except UsageFault LineState :=
  let word := String.ofList (text.takeWhile (· ≠ '='))
  match spec.words.lookup word, text.dropWhile (· ≠ '=') with
  | none, _ => .error .unknownArgument
  | some a, [] => if a.hasValue then s.takeDetached a else s.takeSwitch a
  | some a, _ :: value =>
    if a.hasValue then s.takeAttached a (String.ofList value) else .error .surplusValue

/-- Take a plain argument, which waits to be looked at. -/
def takePlain (spec : LineSpec) (s : LineState) (text : String) : Except UsageFault LineState :=
  match spec.plain with
  | some a =>
    if s.plainTaken then .error .unknownArgument
    else do
      let s ← s.settle
      return { s with waiting := some (a, some text), plainTaken := true }
  | none => .error .unknownArgument

/-- Take one more argument. -/
def take (spec : LineSpec) (s : LineState) (text : String) : Except UsageFault LineState :=
  if s.ended then s.takePlain spec text
  else
    match text.toList, s.waiting with
    | ['-', '-'], _ => .ok { s with ended := true }
    | '-' :: '-' :: word, _ => s.takeWord spec word
    | '-' :: c :: letters, _ => takeLetters spec s (c :: letters)
    | _, some (a, none) => .ok { s with waiting := some (a, some text) }
    | _, _ => s.takePlain spec text

/-- The last value given for an argument. -/
def value? (s : LineState) (a : LineArg) : Option String :=
  (s.given.reverse.find? (·.1 = a)).map (·.2)

/-- The values given for an argument, split at commas; none if it was not
    given. -/
def values? (s : LineState) (a : LineArg) : Option (List String) :=
  if s.has a then
    some ((s.given.filter (·.1 = a)).flatMap fun g =>
      (g.2.toList.splitOn ',').map String.ofList)
  else none

/-- How often a counted switch was given, up to 255. -/
def count (s : LineState) (a : LineArg) : Nat :=
  min (s.given.countP (·.1 = a)) 255

/-- The output format that was given. -/
def outputFormat (s : LineState) : OutputFormat :=
  if s.value? .format = some "json" then .json else .terminal

/-- The axis that was given. -/
def chosenAxis (s : LineState) : Axis :=
  if s.value? .axis = some "determinism" then .determinism else .purity

end LineState

namespace Invocation

/-- What is known in front of a command. -/
def topSpec : LineSpec :=
  { letters := [('h', .help), ('V', .version)]
    words := [("help", .help), ("version", .version)] }

/-- What a check knows. -/
def checkSpec : LineSpec :=
  { letters := [('c', .config), ('f', .format), ('o', .output), ('v', .verbose), ('h', .help)]
    words :=
      [("config", .config), ("format", .format), ("output", .output), ("core", .core),
       ("shell", .shell), ("no-determinism", .noDeterminism), ("verbose", .verbose),
       ("help", .help)]
    plain := some .graph }

/-- What a classification knows. -/
def classifySpec : LineSpec :=
  { letters :=
      [('c', .config), ('a', .axis), ('u', .unit), ('f', .format), ('v', .verbose), ('h', .help)]
    words :=
      [("config", .config), ("axis", .axis), ("unit", .unit), ("format", .format),
       ("verbose", .verbose), ("help", .help)]
    plain := some .graph }

/-- What the writing of a configuration file knows. -/
def initSpec : LineSpec :=
  { letters := [('f', .force), ('h', .help)]
    words := [("force", .force), ("help", .help)] }

/-- All arguments of a command, looked at to the last. -/
def readArgs (spec : LineSpec) (args : List String) : Except UsageFault LineState := do
  let s ← args.foldlM (fun s text => s.take spec text) ({} : LineState)
  s.settle

/-- The arguments with the configuration that the environment names, unless
    one was given. -/
def withEnvironment (s : LineState) : (config : Option String) → Except UsageFault LineState
  | some path => if s.has .config then .ok s else s.accept .config path
  | none => .ok s

/-- The graph, which must be given. -/
def graphOf (s : LineState) : Except UsageFault String :=
  match s.value? .graph with
  | some path => .ok path
  | none => .error .missingArgument

/-- A check with its arguments. -/
def checkOf (config : Option String) (args : List String) : Except UsageFault Invocation := do
  let s ← withEnvironment (← readArgs checkSpec args) config
  return .check {
    graph := ← graphOf s
    config := s.value? .config
    format := s.outputFormat
    output := s.value? .output
    core := s.values? .core
    shell := s.values? .shell
    noDeterminism := s.has .noDeterminism
    verbosity := s.count .verbose }

/-- A classification with its arguments. -/
def classifyOf (config : Option String) (args : List String) : Except UsageFault Invocation := do
  let s ← withEnvironment (← readArgs classifySpec args) config
  return .classify {
    graph := ← graphOf s
    config := s.value? .config
    axis := s.chosenAxis
    unit := s.value? .unit
    format := s.outputFormat
    verbosity := s.count .verbose }

/-- The writing of a configuration file with its arguments. -/
def initOf (args : List String) : Except UsageFault Invocation := do
  let s ← readArgs initSpec args
  return .init (s.has .force)

/-- The names of the commands, help among them. -/
def commands : List String :=
  ["check", "classify", "init", "help"]

/-- The answer to a call for help on a command. Only the commands themselves
    have help. -/
def helpOn : (topics : List String) → UsageFault
  | [] => .help
  | [topic] => if topic ∈ commands then .help else .unknownCommand
  | _ => .unknownCommand

/-- The invocation of a command line, with the configuration that the
    environment names. `ended` says whether two dashes came before. -/
def ofArgsFrom (config : Option String) (ended : Bool) :
    (args : List String) → Except UsageFault Invocation
  | [] => .error .noCommand
  | text :: rest =>
    if ended then .error (if text ∈ commands then .unknownArgument else .unknownCommand)
    else if text = "check" then checkOf config rest
    else if text = "classify" then classifyOf config rest
    else if text = "init" then initOf rest
    else if text = "help" then .error (helpOn rest)
    else if text = "--" then ofArgsFrom config true rest
    else
      match text.toList with
      | '-' :: _ :: _ => do
        let _ ← ({} : LineState).take topSpec text
        ofArgsFrom config ended rest
      | _ => .error .unknownCommand

/-- The invocation of a command line, with the configuration that the
    environment names. -/
def ofArgs (config : Option String) (args : List String) : Except UsageFault Invocation :=
  ofArgsFrom config false args

end Invocation

end CoreShell
