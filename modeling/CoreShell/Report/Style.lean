/-!
# Styled Text

Terminals print a text in a style when it stands between an escape sequence
that names the style and one that ends it. Where styling is turned off, a text
is printed as it is.

A styled text may itself contain the ending sequence. The style is then
started again behind it, so that it covers the whole text.

## Main definitions

* `Style`: A style as a list of codes.
* `Style.paint`: A text in a style.
* `Style.isWanted`: Whether texts are printed in styles.
-/

namespace CoreShell

/-- A style, as the codes that switch it on. -/
structure Style where
  codes : List Nat
deriving DecidableEq, Inhabited

namespace Style

def bold : Style := ⟨[1]⟩

def dimmed : Style := ⟨[2]⟩

def red : Style := ⟨[31]⟩

def green : Style := ⟨[32]⟩

def yellow : Style := ⟨[33]⟩

/-- Bold and green, for a check that passes. -/
def success : Style := ⟨[1, 32]⟩

/-- Bold and red, for a check that fails. -/
def failure : Style := ⟨[1, 31]⟩

/-- The sequence that switches a style on. -/
def opening (s : Style) : String :=
  "\x1b[" ++ ";".intercalate (s.codes.map toString) ++ "m"

/-- The sequence that switches any style off. -/
def closing : String := "\x1b[0m"

/-- A text with the style switched on again behind every sequence in it that
    switches styles off. -/
def reopen (again : List Char) : List Char → List Char
  | '\x1b' :: '[' :: '0' :: 'm' :: rest =>
    ['\x1b', '[', '0', 'm'] ++ again ++ reopen again rest
  | c :: rest => c :: reopen again rest
  | [] => []

/-- A text in a style, if styling is turned on. -/
def paint (enabled : Bool) (s : Style) (text : String) : String :=
  if enabled then
    s.opening ++ String.ofList (reopen s.opening.toList text.toList) ++ closing
  else
    text

/-- Whether texts are printed in styles, by what the environment says: a
    demand for them comes first, then a refusal, and then it takes a terminal
    and no zero for a wish. -/
def isWanted (demand refusal wish : Option String) (terminal : Bool) : Bool :=
  if demand.any (· ≠ "0") then true
  else if refusal.isSome then false
  else terminal && wish ≠ some "0"

end Style

end CoreShell
