/-!
# JSON Values

A JSON document as a value. Objects keep their members in order, with
repetitions, and numbers keep their spelling, because nothing here computes
with them.

A JSON string may name half of a surrogate pair without the other half. Such a
string denotes no text. It is fine where nobody looks at it and an error where
a text is asked for, so strings and member names carry an optional text.

## Main definitions

* `Json`: JSON values.
* `Json.text`, `Json.count`, `Json.texts`, `Json.fields`: Values made from
  texts, numbers and named members.
-/

namespace CoreShell

/-- A JSON value. -/
inductive Json where
  | null
  | bool (value : Bool)
  /-- A number by its spelling. -/
  | number (literal : String)
  /-- A string, or `none` for one that denotes no text. -/
  | string (text : Option String)
  | array (items : List Json)
  /-- Members in order; a name may denote no text, and may occur again. -/
  | object (members : List (Option String × Json))
deriving Inhabited

namespace Json

/-- The string of a text. -/
def text (s : String) : Json :=
  .string (some s)

/-- The number for a count. -/
def count (n : Nat) : Json :=
  .number (toString n)

/-- The array of several texts. -/
def texts (xs : List String) : Json :=
  .array (xs.map text)

/-- The object with the given members. -/
def fields (members : List (String × Json)) : Json :=
  .object (members.map fun m => (some m.1, m.2))

end Json

end CoreShell
