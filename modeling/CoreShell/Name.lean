import CoreShell.Text.Blank
import CoreShell.Text.Pieces

/-!
# Qualified Names

A unit of code is known by its owner, its simple name and its parameter
types, written together as `owner.name(first, second)`. A unit that is only
referred to is known by that text alone, so the text has to be taken apart
again: `split` recovers name and parameters, and `ownerOf` the owner. Both
accept any text at all and fall back to the whole of it where the shape is
not there.

## Main definitions

* `qualify`: The qualified name of a unit.
* `split`: The simple name and the parameters in a qualified name.
* `ownerOf`: The owner in a qualified name.
* `constructorName`: The simple name that marks a constructor.
-/

namespace CoreShell

namespace Name

/-- The simple name that marks a unit known by reference only as a
    constructor. -/
def constructorName : String := "<init>"

/-- The qualified name of a unit, for instance `app.Core.add(int, int)`. -/
def qualify (owner name : String) (parameters : List String) : String :=
  owner ++ "." ++ name ++ "(" ++ Text.join ", " parameters ++ ")"

/-- The part of a qualified name behind its owner and the dot, or all of it
    when it does not begin with them. -/
def localPart (qualified owner : List Char) : List Char :=
  (Text.dropStart? (owner ++ ['.']) qualified).getD qualified

/-- The parameter list between two parentheses: the pieces between commas,
    without blanks at their ends and without the empty ones. -/
def parametersOf (inner : List Char) : List String :=
  (((inner.splitOn ',').map Text.trim).filter (· ≠ [])).map String.ofList

/-- The simple name and the parameters in a qualified name of the given owner.
    The name ends at the first opening parenthesis, and there are parameters
    only when the text ends in a closing one. -/
def split (qualified owner : String) : String × List String :=
  let rest := localPart qualified.toList owner.toList
  if '(' ∈ rest ∧ rest.getLast? = some ')' then
    (String.ofList (rest.takeWhile (· ≠ '(')),
      parametersOf (rest.dropWhile (· ≠ '(')).tail.dropLast)
  else
    (String.ofList rest, [])

/-- The owner in a qualified name: the text before the last dot in front of
    the first opening parenthesis, or all of that text when it has no dot. -/
def ownerOf (qualified : String) : String :=
  let head := qualified.toList.takeWhile (· ≠ '(')
  if '.' ∈ head then
    String.ofList (head.reverse.dropWhile (· ≠ '.')).tail.reverse
  else
    String.ofList head

end Name

end CoreShell
