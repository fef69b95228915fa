/-!
# Blank Characters

Which characters count as white space, and how a text loses them at its ends.

The set is the Unicode property White_Space: ten ranges, the widest of them
the typographic spaces from U+2000 to U+200A. Characters that merely look
empty, such as the zero width space U+200B or the separator controls U+001C
to U+001F, do not have the property and are kept.

## Main definitions

* `blankRanges`: The ranges of the property, ends included.
* `isBlank`: Membership in one of the ranges.
* `trim`: A text without its leading and trailing blanks.
-/

namespace CoreShell

namespace Text

/-- The code points with the property White_Space, as ranges with both ends
    included. -/
def blankRanges : List (Nat × Nat) :=
  [(0x09, 0x0D), (0x20, 0x20), (0x85, 0x85), (0xA0, 0xA0), (0x1680, 0x1680),
   (0x2000, 0x200A), (0x2028, 0x2029), (0x202F, 0x202F), (0x205F, 0x205F),
   (0x3000, 0x3000)]

/-- A character is blank when its code point lies in a range of the
    property. -/
def isBlank (c : Char) : Bool :=
  blankRanges.any fun range => range.1 ≤ c.toNat && c.toNat ≤ range.2

/-- A text without the blanks at its two ends; blanks inside it stay. -/
def trim (cs : List Char) : List Char :=
  ((cs.dropWhile isBlank).reverse.dropWhile isBlank).reverse

end Text

end CoreShell
