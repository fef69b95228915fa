import CoreShell.Text.Hex

/-!
# JSON Tokens

A document as a sequence of tokens. White space separates tokens and is
dropped. Whether the tokens form a document is not decided here; two numbers
without anything between them, for instance, are still two tokens.

A string token holds the text it denotes. Its escapes are UTF-16 units, and a
unit from the surrogate range counts only together with its partner; a string
with a lone one denotes no text.

## Main definitions

* `JsonToken`: The tokens.
* `JsonToken.ofUnits?`: The text that a sequence of units denotes.
* `JsonToken.scan?`: The tokens of a document.

## Theorems

* `scanString?_length`: A string ends behind where it begins.
* `scanNumber?_length`: A number takes up at least one character.
* `next?_length`: So does every token.
-/

namespace CoreShell

/-- A token of a JSON document. -/
inductive JsonToken where
  | openObject
  | closeObject
  | openArray
  | closeArray
  | colon
  | comma
  | null
  | bool (value : Bool)
  | number (literal : String)
  | string (text : Option String)
deriving DecidableEq, Inhabited

namespace JsonToken

/-- The four characters of white space in JSON. -/
def isSpace (c : Char) : Bool :=
  c = ' ' || c = '\t' || c = '\n' || c = '\r'

/-- The character that a one-letter escape stands for. -/
def escape? : Char → Option Char
  | '"' => some '"'
  | '\\' => some '\\'
  | '/' => some '/'
  | 'b' => some '\x08'
  | 'f' => some '\x0c'
  | 'n' => some '\n'
  | 'r' => some '\r'
  | 't' => some '\t'
  | _ => none

/-- Whether a unit is the first half of a surrogate pair. -/
def isHighUnit (u : Nat) : Bool :=
  0xD800 ≤ u && u ≤ 0xDBFF

/-- Whether a unit is the second half of a surrogate pair. -/
def isLowUnit (u : Nat) : Bool :=
  0xDC00 ≤ u && u ≤ 0xDFFF

/-- The characters that units denote, or `none` if half of a surrogate pair
    stands alone. -/
def ofUnits? : List Nat → Option (List Char)
  | [] => some []
  | [u] => if isHighUnit u || isLowUnit u then none else some [Char.ofNat u]
  | u :: v :: rest =>
    if isHighUnit u then
      if isLowUnit v then
        (ofUnits? rest).map (Char.ofNat (0x10000 + (u - 0xD800) * 0x400 + (v - 0xDC00)) :: ·)
      else none
    else if isLowUnit u then none
    else (ofUnits? (v :: rest)).map (Char.ofNat u :: ·)

/-- The units of a string up to its closing quote, and the rest behind it.
    Control characters must be escaped. -/
def scanString? : List Char → Option (List Nat × List Char)
  | [] => none
  | '"' :: rest => some ([], rest)
  | '\\' :: 'u' :: a :: b :: c :: d :: rest => do
    let unit ← Text.hex? [a, b, c, d]
    let (units, rest) ← scanString? rest
    return (unit :: units, rest)
  | '\\' :: e :: rest => do
    let c ← escape? e
    let (units, rest) ← scanString? rest
    return (c.toNat :: units, rest)
  | c :: rest =>
    if c = '\\' ∨ c.toNat < 0x20 then none
    else do
      let (units, rest) ← scanString? rest
      return (c.toNat :: units, rest)

/-- At least one digit, and the rest behind all of them. -/
def scanDigits? (cs : List Char) : Option (List Char × List Char) :=
  let digits := cs.takeWhile Char.isDigit
  if digits.isEmpty then none else some (digits, cs.dropWhile Char.isDigit)

/-- The whole part of a number. A leading zero stands alone. -/
def scanWhole? : List Char → Option (List Char × List Char)
  | '0' :: rest => some (['0'], rest)
  | cs => scanDigits? cs

/-- The fraction of a number, if it has one. A point without digits behind it
    is an error. -/
def scanFraction? : List Char → Option (List Char × List Char)
  | '.' :: rest => do
    let (digits, rest) ← scanDigits? rest
    return ('.' :: digits, rest)
  | cs => some ([], cs)

/-- The digits of an exponent behind an optional sign. -/
def scanSigned? : List Char → Option (List Char × List Char)
  | '+' :: rest => do
    let (digits, rest) ← scanDigits? rest
    return ('+' :: digits, rest)
  | '-' :: rest => do
    let (digits, rest) ← scanDigits? rest
    return ('-' :: digits, rest)
  | cs => scanDigits? cs

/-- The exponent of a number, if it has one. -/
def scanExponent? : List Char → Option (List Char × List Char)
  | c :: rest =>
    if c = 'e' ∨ c = 'E' then do
      let (digits, rest) ← scanSigned? rest
      return (c :: digits, rest)
    else some ([], c :: rest)
  | [] => some ([], [])

/-- A number without its sign. -/
def scanUnsigned? (cs : List Char) : Option (List Char × List Char) := do
  let (whole, rest) ← scanWhole? cs
  let (fraction, rest) ← scanFraction? rest
  let (exponent, rest) ← scanExponent? rest
  return (whole ++ fraction ++ exponent, rest)

/-- A number and the rest behind it. -/
def scanNumber? : List Char → Option (List Char × List Char)
  | '-' :: rest => do
    let (literal, rest) ← scanUnsigned? rest
    return ('-' :: literal, rest)
  | cs => scanUnsigned? cs

/-- The token at the start of a text, and the rest behind it. -/
def next? : List Char → Option (JsonToken × List Char)
  | [] => none
  | '{' :: rest => some (openObject, rest)
  | '}' :: rest => some (closeObject, rest)
  | '[' :: rest => some (openArray, rest)
  | ']' :: rest => some (closeArray, rest)
  | ':' :: rest => some (colon, rest)
  | ',' :: rest => some (comma, rest)
  | 'n' :: 'u' :: 'l' :: 'l' :: rest => some (null, rest)
  | 't' :: 'r' :: 'u' :: 'e' :: rest => some (bool true, rest)
  | 'f' :: 'a' :: 'l' :: 's' :: 'e' :: rest => some (bool false, rest)
  | '"' :: rest => do
    let (units, rest) ← scanString? rest
    return (string ((ofUnits? units).map String.ofList), rest)
  | c :: rest => do
    let (literal, rest) ← scanNumber? (c :: rest)
    return (number (String.ofList literal), rest)

theorem scanString?_length (cs : List Char) (units : List Nat) (rest : List Char)
    (h : scanString? cs = some (units, rest)) : rest.length < cs.length := by
  fun_induction scanString? cs generalizing units rest with
  | case1 => simp at h
  | case2 => simp_all
  | case3 a b c d tail ih =>
      simp only [Option.bind_eq_bind, Option.bind_eq_some_iff, Option.pure_def,
        Option.some.injEq, Prod.mk.injEq] at h
      obtain ⟨_, _, ⟨us, r⟩, hr, _, rfl⟩ := h
      have := ih us r hr
      simp only [List.length_cons]
      omega
  | case4 e tail _ ih =>
      simp only [Option.bind_eq_bind, Option.bind_eq_some_iff, Option.pure_def,
        Option.some.injEq, Prod.mk.injEq] at h
      obtain ⟨_, _, ⟨us, r⟩, hr, _, rfl⟩ := h
      have := ih us r hr
      simp only [List.length_cons]
      omega
  | case5 => simp at h
  | case6 c tail _ _ _ _ ih =>
      simp only [Option.bind_eq_bind, Option.bind_eq_some_iff, Option.pure_def,
        Option.some.injEq, Prod.mk.injEq] at h
      obtain ⟨⟨us, r⟩, hr, _, rfl⟩ := h
      have := ih us r hr
      simp only [List.length_cons]
      omega

theorem scanDigits?_length (cs digits rest : List Char)
    (h : scanDigits? cs = some (digits, rest)) : rest.length < cs.length := by
  have hlen : (cs.takeWhile Char.isDigit).length + (cs.dropWhile Char.isDigit).length =
      cs.length := by
    rw [← List.length_append, List.takeWhile_append_dropWhile]
  simp only [scanDigits?] at h
  split at h
  · simp at h
  · rename_i hne
    simp only [Option.some.injEq, Prod.mk.injEq] at h
    rw [← h.2]
    have : 0 < (cs.takeWhile Char.isDigit).length :=
      List.length_pos_iff.2 (by simpa using hne)
    omega

theorem scanWhole?_length (cs whole rest : List Char)
    (h : scanWhole? cs = some (whole, rest)) : rest.length < cs.length := by
  unfold scanWhole? at h
  split at h
  · simp only [Option.some.injEq, Prod.mk.injEq] at h
    rw [← h.2]
    exact Nat.lt_succ_self _
  · exact scanDigits?_length _ _ _ h

theorem scanFraction?_length (cs fraction rest : List Char)
    (h : scanFraction? cs = some (fraction, rest)) : rest.length ≤ cs.length := by
  unfold scanFraction? at h
  split at h
  · simp only [Option.bind_eq_bind, Option.bind_eq_some_iff, Option.pure_def,
      Option.some.injEq, Prod.mk.injEq] at h
    obtain ⟨⟨digits, r⟩, hr, _, rfl⟩ := h
    have := scanDigits?_length _ _ _ hr
    simp only [List.length_cons]
    omega
  · simp only [Option.some.injEq, Prod.mk.injEq] at h
    obtain ⟨_, rfl⟩ := h
    exact Nat.le_refl _

theorem scanSigned?_length (cs digits rest : List Char)
    (h : scanSigned? cs = some (digits, rest)) : rest.length < cs.length := by
  unfold scanSigned? at h
  split at h
  · simp only [Option.bind_eq_bind, Option.bind_eq_some_iff, Option.pure_def,
      Option.some.injEq, Prod.mk.injEq] at h
    obtain ⟨⟨ds, r⟩, hr, _, rfl⟩ := h
    have := scanDigits?_length _ _ _ hr
    simp only [List.length_cons]
    omega
  · simp only [Option.bind_eq_bind, Option.bind_eq_some_iff, Option.pure_def,
      Option.some.injEq, Prod.mk.injEq] at h
    obtain ⟨⟨ds, r⟩, hr, _, rfl⟩ := h
    have := scanDigits?_length _ _ _ hr
    simp only [List.length_cons]
    omega
  · exact scanDigits?_length _ _ _ h

theorem scanExponent?_length (cs digits rest : List Char)
    (h : scanExponent? cs = some (digits, rest)) : rest.length ≤ cs.length := by
  unfold scanExponent? at h
  split at h
  · split at h
    · simp only [Option.bind_eq_bind, Option.bind_eq_some_iff, Option.pure_def,
        Option.some.injEq, Prod.mk.injEq] at h
      obtain ⟨⟨ds, r⟩, hr, _, rfl⟩ := h
      have := scanSigned?_length _ _ _ hr
      simp only [List.length_cons]
      omega
    · simp only [Option.some.injEq, Prod.mk.injEq] at h
      obtain ⟨_, rfl⟩ := h
      exact Nat.le_refl _
  · simp only [Option.some.injEq, Prod.mk.injEq] at h
    obtain ⟨_, rfl⟩ := h
    exact Nat.le_refl _

theorem scanUnsigned?_length (cs literal rest : List Char)
    (h : scanUnsigned? cs = some (literal, rest)) : rest.length < cs.length := by
  simp only [scanUnsigned?, Option.bind_eq_bind, Option.bind_eq_some_iff, Option.pure_def,
    Option.some.injEq, Prod.mk.injEq] at h
  obtain ⟨⟨whole, r₁⟩, h₁, ⟨fraction, r₂⟩, h₂, ⟨exponent, r₃⟩, h₃, _, rfl⟩ := h
  have hwhole : r₁.length < cs.length := scanWhole?_length _ _ _ h₁
  have hfraction : r₂.length ≤ r₁.length := scanFraction?_length _ _ _ h₂
  have hexponent : r₃.length ≤ r₂.length := scanExponent?_length _ _ _ h₃
  exact Nat.lt_of_le_of_lt (Nat.le_trans hexponent hfraction) hwhole

theorem scanNumber?_length (cs literal rest : List Char)
    (h : scanNumber? cs = some (literal, rest)) : rest.length < cs.length := by
  unfold scanNumber? at h
  split at h
  · simp only [Option.bind_eq_bind, Option.bind_eq_some_iff, Option.pure_def,
      Option.some.injEq, Prod.mk.injEq] at h
    obtain ⟨⟨digits, r⟩, hr, _, rfl⟩ := h
    have := scanUnsigned?_length _ _ _ hr
    simp only [List.length_cons]
    omega
  · exact scanUnsigned?_length _ _ _ h

theorem next?_length (cs rest : List Char) (token : JsonToken)
    (h : next? cs = some (token, rest)) : rest.length < cs.length := by
  unfold next? at h
  split at h
  case h_11 =>
    simp only [Option.bind_eq_bind, Option.bind_eq_some_iff, Option.pure_def,
      Option.some.injEq, Prod.mk.injEq] at h
    obtain ⟨⟨units, r⟩, hr, _, rfl⟩ := h
    have := scanString?_length _ _ _ hr
    simp only [List.length_cons]
    omega
  case h_12 =>
    simp only [Option.bind_eq_bind, Option.bind_eq_some_iff, Option.pure_def,
      Option.some.injEq, Prod.mk.injEq] at h
    obtain ⟨⟨literal, r⟩, hr, _, rfl⟩ := h
    exact scanNumber?_length _ _ _ hr
  case h_1 => simp at h
  all_goals
    simp only [Option.some.injEq, Prod.mk.injEq] at h
    rw [← h.2]
    simp only [List.length_cons]
    omega

/-- The tokens of a text behind those already found, which are listed last
    first. -/
def scanOnto? (found : List JsonToken) (cs : List Char) : Option (List JsonToken) :=
  match cs with
  | [] => some found.reverse
  | c :: rest =>
    if isSpace c then scanOnto? found rest
    else
      match h : next? (c :: rest) with
      | none => none
      | some (token, behind) =>
        have : behind.length < (c :: rest).length := next?_length _ _ _ h
        scanOnto? (token :: found) behind
termination_by cs.length
decreasing_by
  · exact Nat.lt_succ_self _
  · exact this

/-- The tokens of a text, if it consists of tokens and white space. -/
def scan? (cs : List Char) : Option (List JsonToken) :=
  scanOnto? [] cs

end JsonToken

end CoreShell
