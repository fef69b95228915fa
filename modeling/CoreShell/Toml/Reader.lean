import CoreShell.Toml.Quoted
import CoreShell.Toml.Scalar
import CoreShell.Toml.Table

/-!
# Reading Configurations

A document is a sequence of lines: headers, doubled headers, and keys with
their values, with comments and empty lines between them. Values in brackets
and braces may go over several lines, may end in a comma, and may be nested up
to a fixed depth. Between braces even a key, its equals sign and its value may
stand on lines of their own.

## Main definitions

* `Toml.value?`: The value at the start of a text.
* `TomlStatement`: A header, a doubled header, or a key with its value.
* `Toml.statements?`: The statements of a document.
* `Toml.parse?`: The table of a document.
-/

namespace CoreShell

namespace Toml

/-- A text without the spaces, line breaks and comments at its start. Inside a
    comment only plain characters may stand. -/
def skipLayout? (inComment : Bool) : List Char → Option (List Char)
  | [] => some []
  | '\n' :: rest => skipLayout? false rest
  | '\r' :: '\n' :: rest => skipLayout? false rest
  | c :: rest =>
    if inComment then (if isPlain c then skipLayout? true rest else none)
    else if isIndent c then skipLayout? false rest
    else if c = '#' then skipLayout? true rest
    else some (c :: rest)

/-- What follows the end of a line, behind spaces and perhaps a comment. -/
def afterLine? (cs : List Char) : Option (List Char) :=
  let rest := match cs.dropWhile isIndent with
    | '#' :: comment => comment.dropWhile isPlain
    | rest => rest
  match rest with
  | [] => some []
  | rest => afterBreak? rest

/-- Items with commas between them up to a closing character. The last item
    may have a comma too. -/
def separated? {α : Type} (close : Char) (item? : List Char → Option (α × List Char))
    (cs : List Char) : Option (List α × List Char) :=
  match skipLayout? false cs with
  | none => none
  | some [] => none
  | some (c :: rest) =>
    if c = close then some ([], rest)
    else
      match item? (c :: rest) with
      | none => none
      | some (item, behind) =>
        match skipLayout? false behind with
        | some (',' :: next) =>
          if _h : next.length < cs.length then
            (separated? close item? next).map fun found => (item :: found.1, found.2)
          else none
        | some (d :: next) => if d = close then some ([item], next) else none
        | _ => none
termination_by cs.length

/-- A key path, an equals sign and a value. What may stand on either side of
    the equals sign is skipped by `gap?`. -/
def pair? {α : Type} (gap? : List Char → Option (List Char))
    (value? : List Char → Option (α × List Char)) (cs : List Char) :
    Option ((List String × α) × List Char) := do
  let (path, behind) ← keyPath? cs
  match ← gap? behind with
  | '=' :: rest =>
    let (value, rest) ← value? (← gap? rest)
    return ((path, value), rest)
  | _ => none

/-- The table between braces with the given pairs. -/
def ofPairs? (pairs : List (List String × Toml)) : Option Toml := do
  let content ← pairs.foldlM (fun t pair => TomlTable.put? false pair.1 pair.2 t)
    { origin := .braces : TomlTable }
  return content.toToml

/-- The value at the start of a text, and the rest behind it. At most `depth`
    arrays and braces are open in it at once. -/
def value? : (depth : Nat) → (cs : List Char) → Option (Toml × List Char)
  | depth, cs =>
    match cs with
    | '"' :: _ | '\'' :: _ => (quotedText? cs).map fun found => (.text found.1, found.2)
    | '[' :: rest =>
      match depth with
      | 0 => none
      | depth + 1 =>
        (separated? ']' (value? depth) rest).map fun found => (.array false found.1, found.2)
    | '{' :: rest =>
      match depth with
      | 0 => none
      | depth + 1 => do
        let (pairs, rest) ← separated? '}' (pair? (skipLayout? false) (value? depth)) rest
        return (← ofPairs? pairs, rest)
    | _ => scalar? cs

end Toml

/-- A line of a document. -/
inductive TomlStatement where
  /-- Open a table. -/
  | table (path : List String)
  /-- Append an item to an array of tables. -/
  | item (path : List String)
  /-- Give a key a value in the table that was opened last. -/
  | pair (path : List String) (value : Toml)

namespace Toml

/-- The statement at the start of a text, and the rest behind it. -/
def statement? : List Char → Option (TomlStatement × List Char)
  | '[' :: '[' :: rest =>
    match keyPath? (rest.dropWhile isIndent) with
    | some (path, ']' :: ']' :: behind) => some (.item path, behind)
    | _ => none
  | '[' :: rest =>
    match keyPath? (rest.dropWhile isIndent) with
    | some (path, ']' :: behind) => some (.table path, behind)
    | _ => none
  | cs =>
    (pair? (fun gap => some (gap.dropWhile isIndent)) (value? maxDepth) cs).map fun found =>
      (.pair found.1.1 found.1.2, found.2)

/-- The statements of a document, one per line. -/
def statements? (cs : List Char) : Option (List TomlStatement) :=
  match skipLayout? false cs with
  | none => none
  | some [] => some []
  | some start =>
    match statement? start with
    | none => none
    | some (statement, behind) =>
      match afterLine? behind with
      | none => none
      | some next =>
        if _h : next.length < cs.length then (statements? next).map (statement :: ·) else none
termination_by cs.length

/-- The document so far with one more statement. The path is that of the table
    opened last. -/
def extend? (document : TomlTable × List String) :
    TomlStatement → Option (TomlTable × List String)
  | .table path => (document.1.openTable? path).map (·, path)
  | .item path => (document.1.openItem? path).map (·, path)
  | .pair path value =>
    (TomlTable.within? (TomlTable.put? false path value) document.2 document.1).map
      (·, document.2)

/-- A text without the mark that some editors put at the start of a file. -/
def dropMark : List Char → List Char
  | '\uFEFF' :: rest => rest
  | cs => cs

/-- The table of a document. -/
def parse? (document : String) : Option Toml := do
  let statements ← statements? (dropMark document.toList)
  let (content, _) ← statements.foldlM extend? ({ origin := .header : TomlTable }, [])
  return content.toToml

end Toml

end CoreShell
