/-!
# Pieces of Text

Package names are compared by how they start, and qualified names are put
together from pieces and taken apart again. Everything here works on the list
of characters of a string, because that is the form in which a text can be
split and rejoined with the laws of lists at hand.

## Main definitions

* `startsWith`: Whether a text begins with another.
* `startsWithAny`: Whether a text begins with one of several.
* `dropStart?`: A text without a given beginning, if it has it.
* `join`: Several texts with a separator between neighbours.
* `lines`: Several texts, each closed by a line feed.
-/

namespace CoreShell

namespace Text

/-- Whether `text` begins with all characters of `start`. -/
def startsWith (text start : String) : Bool :=
  start.toList.isPrefixOf text.toList

/-- Whether `text` begins with one of `starts`. No text begins with a member
    of an empty list. -/
def startsWithAny (starts : List String) (text : String) : Bool :=
  starts.any fun start => startsWith text start

/-- The rest of `text` after `start`, or `none` when it begins otherwise. -/
def dropStart? : (start text : List Char) → Option (List Char)
  | [], text => some text
  | _ :: _, [] => none
  | s :: start, c :: text => if s = c then dropStart? start text else none

/-- The pieces in order with `separator` between neighbours. -/
def join (separator : String) (pieces : List String) : String :=
  String.ofList (separator.toList.intercalate (pieces.map String.toList))

/-- The pieces in order, each closed by a line feed. -/
def lines (pieces : List String) : String :=
  String.join (pieces.map (· ++ "\n"))

end Text

end CoreShell
