import CoreShell.Json.Basic
import CoreShell.Json.Token

/-!
# Reading JSON

The reader takes a document one token at a time. The arrays and objects that
are still open stand on a stack, innermost first, so nesting may go to any
depth, and what is expected next is part of the state.

## Main definitions

* `JsonFrame`: An array or object that is still open.
* `JsonReader`: What has been read and what is expected next.
* `JsonReader.step?`: One more token.
* `Json.ofTokens?`: The value of a sequence of tokens.
* `Json.parse?`: The value of a document.
-/

namespace CoreShell

/-- An array or object that is still open. What it already holds is listed
    last first. -/
inductive JsonFrame where
  | array (items : List Json)
  /-- An object that waits for the value of a member. -/
  | object (members : List (Option String × Json)) (name : Option String)

/-- What has been read of a document and what is expected next. -/
inductive JsonReader where
  /-- A value must follow. -/
  | value (stack : List JsonFrame)
  /-- An array was just opened: its first item or its end must follow. -/
  | firstItem (stack : List JsonFrame)
  /-- A member must follow, or the end of the object if it has none yet. -/
  | member (members : List (Option String × Json)) (mayClose : Bool) (stack : List JsonFrame)
  /-- The colon behind the name of a member must follow. -/
  | colon (members : List (Option String × Json)) (name : Option String)
      (stack : List JsonFrame)
  /-- A value has just been read. -/
  | done (result : Json) (stack : List JsonFrame)

namespace JsonReader

/-- Begin a value. -/
def begin? (stack : List JsonFrame) : JsonToken → Option JsonReader
  | .null => some (.done .null stack)
  | .bool b => some (.done (.bool b) stack)
  | .number literal => some (.done (.number literal) stack)
  | .string text => some (.done (.string text) stack)
  | .openArray => some (.firstItem stack)
  | .openObject => some (.member [] true stack)
  | _ => none

/-- Continue behind a value: with the next item or member, or the end of the
    innermost array or object. -/
def resume? (result : Json) (stack : List JsonFrame) (token : JsonToken) : Option JsonReader :=
  match stack, token with
  | .array items :: outer, .comma => some (.value (.array (result :: items) :: outer))
  | .array items :: outer, .closeArray =>
    some (.done (.array (result :: items).reverse) outer)
  | .object members name :: outer, .comma =>
    some (.member ((name, result) :: members) false outer)
  | .object members name :: outer, .closeObject =>
    some (.done (.object ((name, result) :: members).reverse) outer)
  | _, _ => none

/-- Take one more token. -/
def step? : JsonReader → JsonToken → Option JsonReader
  | .value stack, token => begin? stack token
  | .firstItem stack, .closeArray => some (.done (.array []) stack)
  | .firstItem stack, token => begin? (.array [] :: stack) token
  | .member members _ stack, .string name => some (.colon members name stack)
  | .member _ true stack, .closeObject => some (.done (.object []) stack)
  | .member _ _ _, _ => none
  | .colon members name stack, .colon => some (.value (.object members name :: stack))
  | .colon _ _ _, _ => none
  | .done result stack, token => resume? result stack token

/-- The value that was read, once nothing is open any more. -/
def result? : JsonReader → Option Json
  | .done result [] => some result
  | _ => none

end JsonReader

namespace Json

/-- The value that a sequence of tokens forms. -/
def ofTokens? (tokens : List JsonToken) : Option Json := do
  let reader ← tokens.foldlM JsonReader.step? (.value [])
  reader.result?

/-- The value of a document. -/
def parse? (document : String) : Option Json := do
  let tokens ← JsonToken.scan? document.toList
  ofTokens? tokens

end Json

end CoreShell
