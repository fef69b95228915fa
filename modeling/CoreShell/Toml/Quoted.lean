import CoreShell.Text.Hex

/-!
# Quoted Texts and Keys

Texts come in four forms: between double quotes with escapes or between single
quotes without, and both on one line or, with the quotes tripled, on several.
A line break right behind tripled quotes is dropped, every other one stays as
it is written, and a backslash at the end of a line joins it to the next word.

Control characters other than the tab must be escaped. A key is a text on one
line, or a bare word of letters, digits, underscores and dashes; several of
them may be joined by dots.

## Main definitions

* `Toml.unescape?`: The character an escape stands for.
* `Toml.basicText?`, `Toml.literalText?`: Texts on one line.
* `Toml.basicLines?`, `Toml.literalLines?`: Texts on several lines.
* `Toml.quotedText?`: A text in any of the four forms.
* `Toml.maxDepth`: How deep documents may go.
* `Toml.keyPath?`: Keys joined by dots.
-/

namespace CoreShell

namespace Toml

/-- Whether a character is a space or a tab. -/
def isIndent (c : Char) : Bool :=
  c = ' ' || c = '\t'

/-- Whether a character may stand in a text or a comment as it is. -/
def isPlain (c : Char) : Bool :=
  c = '\t' || (0x20 ≤ c.toNat && c.toNat ≠ 0x7F)

/-- The character with a code point, if there is one. -/
def scalarChar? (code : Nat) : Option Char :=
  if code < 0xD800 ∨ (0xDFFF < code ∧ code ≤ 0x10FFFF) then some (Char.ofNat code) else none

/-- The character that digits of an escape name. -/
def named? (digits : List Char) : Option Char := do
  let code ← Text.hex? digits
  scalarChar? code

/-- The character that an escape stands for behind its backslash, and the rest
    behind it. -/
def unescape? : List Char → Option (Char × List Char)
  | 'b' :: rest => some ('\x08', rest)
  | 't' :: rest => some ('\t', rest)
  | 'n' :: rest => some ('\n', rest)
  | 'f' :: rest => some ('\x0c', rest)
  | 'r' :: rest => some ('\r', rest)
  | 'e' :: rest => some ('\x1b', rest)
  | '"' :: rest => some ('"', rest)
  | '\\' :: rest => some ('\\', rest)
  | 'x' :: a :: b :: rest => (named? [a, b]).map (·, rest)
  | 'u' :: a :: b :: c :: d :: rest => (named? [a, b, c, d]).map (·, rest)
  | 'U' :: a :: b :: c :: d :: e :: f :: g :: h :: rest =>
    (named? [a, b, c, d, e, f, g, h]).map (·, rest)
  | _ => none

/-- A text in double quotes behind its opening quote. -/
def basicText? (cs : List Char) : Option (List Char × List Char) :=
  match cs with
  | [] => none
  | '"' :: rest => some ([], rest)
  | '\\' :: escape =>
    match unescape? escape with
    | some (c, behind) =>
      if _h : behind.length ≤ escape.length then
        (basicText? behind).map fun found => (c :: found.1, found.2)
      else none
    | none => none
  | c :: rest =>
    if isPlain c then (basicText? rest).map fun found => (c :: found.1, found.2) else none
termination_by cs.length

/-- A text in single quotes behind its opening quote. -/
def literalText? : List Char → Option (List Char × List Char)
  | [] => none
  | '\'' :: rest => some ([], rest)
  | c :: rest =>
    if isPlain c then (literalText? rest).map fun found => (c :: found.1, found.2) else none

/-- What follows a line break at the start of a text. -/
def afterBreak? : List Char → Option (List Char)
  | '\n' :: rest => some rest
  | '\r' :: '\n' :: rest => some rest
  | _ => none

/-- A text without the line break at its start, if there is one. -/
def dropBreak (cs : List Char) : List Char :=
  (afterBreak? cs).getD cs

/-- A text without the spaces, tabs and line breaks at its start. -/
def dropLayout : List Char → List Char
  | ' ' :: rest => dropLayout rest
  | '\t' :: rest => dropLayout rest
  | '\n' :: rest => dropLayout rest
  | '\r' :: '\n' :: rest => dropLayout rest
  | cs => cs

/-- What follows a backslash that ends its line: the next word. -/
def afterJoin? (cs : List Char) : Option (List Char) :=
  (afterBreak? (cs.dropWhile isIndent)).map dropLayout

/-- A text in tripled double quotes behind its opening quotes. Up to two
    quotes may stand right in front of the closing ones. -/
def basicLines? (cs : List Char) : Option (List Char × List Char) :=
  match cs with
  | [] => none
  | '"' :: '"' :: '"' :: '"' :: '"' :: rest => some (['"', '"'], rest)
  | '"' :: '"' :: '"' :: '"' :: rest => some (['"'], rest)
  | '"' :: '"' :: '"' :: rest => some ([], rest)
  | '\r' :: '\n' :: rest =>
    (basicLines? rest).map fun found => ('\r' :: '\n' :: found.1, found.2)
  | '\\' :: escape =>
    match afterJoin? escape with
    | some behind =>
      if _h : behind.length ≤ escape.length then basicLines? behind else none
    | none =>
      match unescape? escape with
      | some (c, behind) =>
        if _h : behind.length ≤ escape.length then
          (basicLines? behind).map fun found => (c :: found.1, found.2)
        else none
      | none => none
  | c :: rest =>
    if isPlain c || c = '\n' then
      (basicLines? rest).map fun found => (c :: found.1, found.2)
    else none
termination_by cs.length

/-- A text in tripled single quotes behind its opening quotes. Up to two
    quotes may stand right in front of the closing ones. -/
def literalLines? : List Char → Option (List Char × List Char)
  | [] => none
  | '\'' :: '\'' :: '\'' :: '\'' :: '\'' :: rest => some (['\'', '\''], rest)
  | '\'' :: '\'' :: '\'' :: '\'' :: rest => some (['\''], rest)
  | '\'' :: '\'' :: '\'' :: rest => some ([], rest)
  | '\r' :: '\n' :: rest =>
    (literalLines? rest).map fun found => ('\r' :: '\n' :: found.1, found.2)
  | c :: rest =>
    if isPlain c || c = '\n' then
      (literalLines? rest).map fun found => (c :: found.1, found.2)
    else none

/-- The quoted text at the start of a text, and the rest behind it. -/
def quotedText? : List Char → Option (String × List Char)
  | '"' :: '"' :: '"' :: rest =>
    (basicLines? (dropBreak rest)).map fun found => (String.ofList found.1, found.2)
  | '\'' :: '\'' :: '\'' :: rest =>
    (literalLines? (dropBreak rest)).map fun found => (String.ofList found.1, found.2)
  | '"' :: rest => (basicText? rest).map fun found => (String.ofList found.1, found.2)
  | '\'' :: rest => (literalText? rest).map fun found => (String.ofList found.1, found.2)
  | _ => none

/-- Whether a character may stand in a bare key. -/
def isBareKey (c : Char) : Bool :=
  c.isAlphanum || c = '_' || c = '-'

/-- A single key: bare or quoted on one line. -/
def key? : List Char → Option (String × List Char)
  | '"' :: rest => (basicText? rest).map fun found => (String.ofList found.1, found.2)
  | '\'' :: rest => (literalText? rest).map fun found => (String.ofList found.1, found.2)
  | cs =>
    let word := cs.takeWhile isBareKey
    if word.isEmpty then none else some (String.ofList word, cs.dropWhile isBareKey)

/-- Keys joined by dots, with spaces and tabs around the dots, and the rest
    behind the last key and its spaces. -/
def keys? (cs : List Char) : Option (List String × List Char) :=
  match key? cs with
  | none => none
  | some (key, rest) =>
    match rest.dropWhile isIndent with
    | '.' :: behind =>
      let next := behind.dropWhile isIndent
      if _h : next.length < cs.length then
        (keys? next).map fun found => (key :: found.1, found.2)
      else none
    | rest => some ([key], rest)
termination_by cs.length

/-- How many keys a path may have, and how many arrays and braces may be open
    at once. The two are counted apart from each other. -/
def maxDepth : Nat := 80

/-- The key path at the start of a text, unless it has too many keys, and the
    rest behind it. -/
def keyPath? (cs : List Char) : Option (List String × List Char) :=
  (keys? cs).filter fun found => found.1.length ≤ maxDepth

end Toml

end CoreShell
