import CoreShell.Json.Token
import CoreShell.Json.Writer
import Mathlib.Data.List.TakeWhile
import Mathlib.Tactic.FinCases

/-!
# Texts of JSON Tokens

Which texts stand for a sequence of tokens, said without a scanner. Between tokens there may be
white space. A string may spell each of its characters in several ways, by itself, by a
one-letter escape or by the number of a unit in hexadecimal digits. A number is a sign, a whole
part, a fraction and an exponent, and it has to end where it ends: what follows must not read
as more of it. All other tokens have one spelling.

The scanner finds the tokens of every such text.

## Main definitions

* `JsonToken.Spelled`: The units of a string and how they are written.
* `JsonToken.IsNumber`: The spelling of a number.
* `JsonToken.Spells`: The spelling of a token.
* `JsonToken.Clear`: A text that does not start with a character of a kind.
* `JsonToken.Texts`: The texts of a sequence of tokens.

## Theorems

* `scanString?_spelled`: A string is scanned up to its closing quote.
* `scanNumber?_append`: A number is scanned up to where it ends.
* `next?_spells`: A token is scanned.
* `scan?_texts`: The tokens of a text are found.
* `spells_quoted`: A string is written in one of its spellings.
-/

namespace CoreShell

namespace JsonToken

/-- What a backslash and one more letter stand for. -/
def shortEscapes : List (Char × Char) :=
  [('"', '"'), ('\\', '\\'), ('/', '/'), ('b', '\x08'), ('f', '\x0c'), ('n', '\n'), ('r', '\r'),
   ('t', '\t')]

/-- The units of a string and how they are written between its quotes. -/
inductive Spelled : List Nat → List Char → Prop
  | nil : Spelled [] []
  /-- A character that need not be escaped. -/
  | plain {c : Char} {units : List Nat} {cs : List Char} (visible : 0x20 ≤ c.toNat)
      (quote : c ≠ '"') (backslash : c ≠ '\\') (rest : Spelled units cs) :
      Spelled (c.toNat :: units) (c :: cs)
  | short {e c : Char} {units : List Nat} {cs : List Char} (known : (e, c) ∈ shortEscapes)
      (rest : Spelled units cs) : Spelled (c.toNat :: units) ('\\' :: e :: cs)
  /-- A unit by its number. -/
  | hex {a b c d : Char} {unit : Nat} {units : List Nat} {cs : List Char}
      (digits : Text.hex? [a, b, c, d] = some unit) (rest : Spelled units cs) :
      Spelled (unit :: units) ('\\' :: 'u' :: a :: b :: c :: d :: cs)

/-- At least one digit, and nothing else. -/
def IsDigits (cs : List Char) : Prop :=
  cs ≠ [] ∧ ∀ c ∈ cs, c.isDigit = true

/-- The whole part of a number: digits, and no zero in front of others. -/
def IsWhole (cs : List Char) : Prop :=
  cs = ['0'] ∨ IsDigits cs ∧ cs.head? ≠ some '0'

/-- The fraction of a number, which may be missing. -/
def IsFraction (cs : List Char) : Prop :=
  cs = [] ∨ ∃ digits, cs = '.' :: digits ∧ IsDigits digits

/-- The exponent of a number, which may be missing. -/
def IsExponent (cs : List Char) : Prop :=
  cs = [] ∨ ∃ e sign digits, cs = e :: (sign ++ digits) ∧ (e = 'e' ∨ e = 'E') ∧
    (sign = [] ∨ sign = ['+'] ∨ sign = ['-']) ∧ IsDigits digits

/-- The spelling of a number. -/
def IsNumber (cs : List Char) : Prop :=
  ∃ sign whole fraction exponent, cs = sign ++ (whole ++ (fraction ++ exponent)) ∧
    (sign = [] ∨ sign = ['-']) ∧ IsWhole whole ∧ IsFraction fraction ∧ IsExponent exponent

/-- A character that a number in front of it could go on with. -/
def continuesNumber (c : Char) : Bool :=
  c.isDigit || c = '.' || c = 'e' || c = 'E'

/-- The spelling of a token. -/
inductive Spells : JsonToken → List Char → Prop
  | openObject : Spells openObject ['{']
  | closeObject : Spells closeObject ['}']
  | openArray : Spells openArray ['[']
  | closeArray : Spells closeArray [']']
  | colon : Spells colon [':']
  | comma : Spells comma [',']
  | null : Spells null ['n', 'u', 'l', 'l']
  | true : Spells (bool true) ['t', 'r', 'u', 'e']
  | false : Spells (bool false) ['f', 'a', 'l', 's', 'e']
  | number {literal : String} (spelling : IsNumber literal.toList) :
      Spells (number literal) literal.toList
  /-- A string denotes the text of its units, if they have one. -/
  | string {units : List Nat} {cs : List Char} (spelling : Spelled units cs) :
      Spells (string ((ofUnits? units).map String.ofList)) ('"' :: (cs ++ ['"']))

/-- The token is a number. -/
def isNumber : JsonToken → Bool
  | number _ => Bool.true
  | _ => Bool.false

/-- A text that does not start with a character of a kind. -/
def Clear (kind : Char → Bool) (cs : List Char) : Prop :=
  ∀ c ∈ cs.head?, kind c = Bool.false

/-- The texts of a sequence of tokens. -/
inductive Texts : List JsonToken → List Char → Prop
  | nil : Texts [] []
  | space {tokens : List JsonToken} {c : Char} {cs : List Char} (space : isSpace c = Bool.true)
      (rest : Texts tokens cs) : Texts tokens (c :: cs)
  | token {t : JsonToken} {tokens : List JsonToken} {spelling cs : List Char}
      (spells : Spells t spelling) (ends : t.isNumber = Bool.true → Clear continuesNumber cs)
      (rest : Texts tokens cs) : Texts (t :: tokens) (spelling ++ cs)

section Strings

theorem scanString?_plain {c : Char} (hvisible : 0x20 ≤ c.toNat) (hquote : c ≠ '"')
    (hbackslash : c ≠ '\\') (rest : List Char) :
    scanString? (c :: rest) = (scanString? rest).map fun r => (c.toNat :: r.1, r.2) := by
  rw [scanString?, if_neg (by simp [hbackslash, hvisible])]
  · cases scanString? rest <;> rfl
  all_goals
    intros
    contradiction

theorem scanString?_short {e c : Char} (h : (e, c) ∈ shortEscapes) (rest : List Char) :
    scanString? ('\\' :: e :: rest) = (scanString? rest).map fun r => (c.toNat :: r.1, r.2) := by
  fin_cases h <;> simp [scanString?, escape?] <;> cases scanString? rest <;> rfl

theorem scanString?_hex {a b c d : Char} {unit : Nat} (h : Text.hex? [a, b, c, d] = some unit)
    (rest : List Char) :
    scanString? ('\\' :: 'u' :: a :: b :: c :: d :: rest) =
      (scanString? rest).map fun r => (unit :: r.1, r.2) := by
  rw [scanString?, h]
  cases scanString? rest <;> rfl

/-- A string is scanned up to its closing quote. -/
theorem scanString?_spelled {units : List Nat} {cs : List Char} (h : Spelled units cs)
    (rest : List Char) : scanString? (cs ++ '"' :: rest) = some (units, rest) := by
  induction h with
  | nil => rfl
  | plain hvisible hquote hbackslash _ ih =>
      rw [List.cons_append, scanString?_plain hvisible hquote hbackslash, ih]
      rfl
  | short hknown _ ih =>
      rw [List.cons_append, List.cons_append, scanString?_short hknown, ih]
      rfl
  | hex hdigits _ ih =>
      simp only [List.cons_append]
      rw [scanString?_hex hdigits, ih]
      rfl

theorem ofUnits?_cons {u : Nat} (hhigh : isHighUnit u = Bool.false)
    (hlow : isLowUnit u = Bool.false) (units : List Nat) :
    ofUnits? (u :: units) = (ofUnits? units).map (Char.ofNat u :: ·) := by
  cases units with
  | nil => simp [ofUnits?, hhigh, hlow]
  | cons v rest => simp [ofUnits?, hhigh, hlow]

theorem isHighUnit_toNat (c : Char) : isHighUnit c.toNat = Bool.false := by
  have hvalid : c.toNat.isValidChar := c.valid
  simp only [isHighUnit, Bool.and_eq_false_iff, decide_eq_false_iff_not]
  rcases hvalid with h | h <;> omega

theorem isLowUnit_toNat (c : Char) : isLowUnit c.toNat = Bool.false := by
  have hvalid : c.toNat.isValidChar := c.valid
  simp only [isLowUnit, Bool.and_eq_false_iff, decide_eq_false_iff_not]
  rcases hvalid with h | h <;> omega

/-- The characters of a text are its own units. -/
theorem ofUnits?_toNat (cs : List Char) : ofUnits? (cs.map Char.toNat) = some cs := by
  induction cs with
  | nil => rfl
  | cons c cs ih =>
      rw [List.map_cons, ofUnits?_cons (isHighUnit_toNat c) (isLowUnit_toNat c), ih,
        Char.ofNat_toNat]
      rfl

end Strings

section Numbers

@[simp] theorem clear_nil (kind : Char → Bool) : Clear kind [] := by
  simp [Clear]

@[simp] theorem clear_cons {kind : Char → Bool} {c : Char} {cs : List Char} :
    Clear kind (c :: cs) ↔ kind c = Bool.false := by
  simp [Clear]

/-- A text that starts with no character of a kind starts with none of a narrower one. -/
theorem Clear.mono {kind narrower : Char → Bool} {cs : List Char} (h : Clear kind cs)
    (hkind : ∀ c, narrower c = Bool.true → kind c = Bool.true) : Clear narrower cs := by
  intro c hc
  cases hn : narrower c with
  | false => rfl
  | true => exact absurd (h c hc) (by simp [hkind c hn])

theorem scanDigits?_append {digits rest : List Char} (h : IsDigits digits)
    (hrest : Clear Char.isDigit rest) : scanDigits? (digits ++ rest) = some (digits, rest) := by
  obtain ⟨hne, hdigits⟩ := h
  have hnone : rest.takeWhile Char.isDigit = [] ∧ rest.dropWhile Char.isDigit = rest := by
    cases rest with
    | nil => simp
    | cons c rest => simp [clear_cons.1 hrest]
  have htake : (digits ++ rest).takeWhile Char.isDigit = digits := by
    rw [List.takeWhile_append_of_pos hdigits, hnone.1, List.append_nil]
  have hdrop : (digits ++ rest).dropWhile Char.isDigit = rest := by
    rw [List.dropWhile_append_of_pos hdigits, hnone.2]
  simp only [scanDigits?, htake, hdrop]
  rw [if_neg (by simpa using hne)]

theorem scanWhole?_append {whole rest : List Char} (h : IsWhole whole)
    (hrest : Clear Char.isDigit rest) : scanWhole? (whole ++ rest) = some (whole, rest) := by
  rcases h with rfl | ⟨hdigits, hzero⟩
  · rfl
  · rw [← scanDigits?_append hdigits hrest]
    obtain ⟨c, cs, rfl⟩ := List.exists_cons_of_ne_nil hdigits.1
    rw [List.cons_append, scanWhole?]
    intro _ h
    simp_all

theorem scanFraction?_append {fraction rest : List Char} (h : IsFraction fraction)
    (hrest : Clear (fun c => c.isDigit || c = '.') rest) :
    scanFraction? (fraction ++ rest) = some (fraction, rest) := by
  rcases h with rfl | ⟨digits, rfl, hdigits⟩
  · cases rest with
    | nil => rfl
    | cons c rest =>
        rw [List.nil_append, scanFraction?]
        rintro _ ⟨⟩
        simp at hrest
  · rw [List.cons_append, scanFraction?,
      scanDigits?_append hdigits (hrest.mono fun c hc => by simp [hc])]
    rfl

theorem scanSigned?_append {sign digits rest : List Char}
    (hsign : sign = [] ∨ sign = ['+'] ∨ sign = ['-']) (hdigits : IsDigits digits)
    (hrest : Clear Char.isDigit rest) :
    scanSigned? (sign ++ digits ++ rest) = some (sign ++ digits, rest) := by
  have hscan := scanDigits?_append hdigits hrest
  rcases hsign with rfl | rfl | rfl
  · obtain ⟨c, cs, rfl⟩ := List.exists_cons_of_ne_nil hdigits.1
    have hc : c.isDigit = Bool.true := hdigits.2 c (by simp)
    rw [List.nil_append, List.cons_append, scanSigned?]
    · exact hscan
    all_goals
      rintro _ ⟨⟩
      simp at hc
  all_goals
    simp only [List.cons_append, List.nil_append, scanSigned?, hscan]
    rfl

theorem scanExponent?_append {exponent rest : List Char} (h : IsExponent exponent)
    (hrest : Clear (fun c => c.isDigit || c = 'e' || c = 'E') rest) :
    scanExponent? (exponent ++ rest) = some (exponent, rest) := by
  rcases h with rfl | ⟨e, sign, digits, rfl, he, hsign, hdigits⟩
  · cases rest with
    | nil => rfl
    | cons c rest =>
        simp only [clear_cons, Bool.or_eq_false_iff, decide_eq_false_iff_not] at hrest
        rw [List.nil_append, scanExponent?, if_neg (by simp [hrest.1.2, hrest.2])]
  · rw [List.cons_append, scanExponent?, if_pos he,
      scanSigned?_append hsign hdigits (hrest.mono fun c hc => by simp [hc])]
    rfl

/-- What follows the fraction neither adds a digit to it nor starts another one. -/
theorem clear_exponent {exponent rest : List Char} (h : IsExponent exponent)
    (hrest : Clear continuesNumber rest) :
    Clear (fun c => c.isDigit || c = '.') (exponent ++ rest) := by
  rcases h with rfl | ⟨e, sign, digits, rfl, rfl | rfl, _⟩
  · exact hrest.mono fun c hc => by simp_all [continuesNumber]
  all_goals simp

theorem clear_fraction {fraction rest : List Char} (h : IsFraction fraction)
    (hrest : Clear (fun c => c.isDigit || c = '.') rest) :
    Clear Char.isDigit (fraction ++ rest) := by
  rcases h with rfl | ⟨digits, rfl, _⟩
  · exact hrest.mono fun c hc => by simp [hc]
  · simp

theorem scanUnsigned?_append {whole fraction exponent rest : List Char} (hwhole : IsWhole whole)
    (hfraction : IsFraction fraction) (hexponent : IsExponent exponent)
    (hrest : Clear continuesNumber rest) :
    scanUnsigned? (whole ++ (fraction ++ exponent) ++ rest) =
      some (whole ++ (fraction ++ exponent), rest) := by
  have hbehind := clear_exponent hexponent hrest
  have hend : Clear (fun c => c.isDigit || c = 'e' || c = 'E') rest := by
    refine hrest.mono fun c hc => ?_
    simp only [continuesNumber, Bool.or_eq_true] at hc ⊢
    tauto
  simp only [scanUnsigned?, List.append_assoc, Option.bind_eq_bind, Option.bind_some,
    scanWhole?_append hwhole (clear_fraction hfraction hbehind),
    scanFraction?_append hfraction hbehind, scanExponent?_append hexponent hend]
  rfl

theorem IsWhole.exists_digit {whole : List Char} (h : IsWhole whole) :
    ∃ c cs, whole = c :: cs ∧ c.isDigit = Bool.true := by
  rcases h with rfl | ⟨⟨hne, hdigits⟩, _⟩
  · exact ⟨'0', [], rfl, rfl⟩
  · obtain ⟨c, cs, rfl⟩ := List.exists_cons_of_ne_nil hne
    exact ⟨c, cs, rfl, hdigits c (by simp)⟩

/-- A number is scanned up to where it ends. -/
theorem scanNumber?_append {cs rest : List Char} (h : IsNumber cs)
    (hrest : Clear continuesNumber rest) : scanNumber? (cs ++ rest) = some (cs, rest) := by
  obtain ⟨sign, whole, fraction, exponent, rfl, hsign, hwhole, hfraction, hexponent⟩ := h
  have hscan := scanUnsigned?_append hwhole hfraction hexponent hrest
  rcases hsign with rfl | rfl
  · -- Without a sign the number starts with a digit, which is not taken for one.
    obtain ⟨c, cs, rfl, hc⟩ := hwhole.exists_digit
    rw [List.nil_append, ← hscan, List.cons_append, List.cons_append, scanNumber?]
    rintro _ ⟨⟩
    simp at hc
  · rw [List.cons_append, List.nil_append, List.cons_append, scanNumber?, hscan]
    rfl

/-- A number starts with its sign or with a digit. -/
theorem IsNumber.exists_start {cs : List Char} (h : IsNumber cs) :
    ∃ c rest, cs = c :: rest ∧ (c.isDigit = Bool.true ∨ c = '-') := by
  obtain ⟨sign, whole, fraction, exponent, rfl, rfl | rfl, hwhole, _⟩ := h
  · obtain ⟨c, cs, rfl, hc⟩ := hwhole.exists_digit
    exact ⟨c, _, rfl, .inl hc⟩
  · exact ⟨'-', _, rfl, .inr rfl⟩

end Numbers

section Tokens

theorem next?_of_start {c : Char} (hc : c.isDigit = Bool.true ∨ c = '-') (rest : List Char) :
    next? (c :: rest) =
      (scanNumber? (c :: rest)).map fun r => (number (String.ofList r.1), r.2) := by
  rw [next?]
  · cases scanNumber? (c :: rest) <;> rfl
  -- Every other token starts with a character that is neither a digit nor a sign.
  all_goals
    intros
    subst c
    simp at hc

/-- A token is scanned, whatever follows it. -/
theorem next?_spells {t : JsonToken} {spelling : List Char} (h : Spells t spelling)
    {rest : List Char} (hrest : t.isNumber = Bool.true → Clear continuesNumber rest) :
    next? (spelling ++ rest) = some (t, rest) := by
  cases h with
  | number hnumber =>
      obtain ⟨c, cs, hcs, hc⟩ := hnumber.exists_start
      have hscan := scanNumber?_append hnumber (hrest rfl)
      rw [hcs, List.cons_append] at hscan ⊢
      rw [next?_of_start hc, hscan, ← hcs]
      simp
  | string hspelled =>
      rw [List.cons_append, List.append_assoc, next?]
      rw [List.cons_append, List.nil_append, scanString?_spelled hspelled]
      rfl
  | _ => rfl

/-- No token starts with white space. -/
theorem Spells.exists_start {t : JsonToken} {spelling : List Char} (h : Spells t spelling) :
    ∃ c cs, spelling = c :: cs ∧ isSpace c = Bool.false := by
  cases h with
  | number hnumber =>
      obtain ⟨c, cs, hcs, hc⟩ := hnumber.exists_start
      refine ⟨c, cs, hcs, ?_⟩
      simp only [isSpace, Bool.or_eq_false_iff, decide_eq_false_iff_not]
      refine ⟨⟨⟨?_, ?_⟩, ?_⟩, ?_⟩ <;> rintro rfl <;> simp at hc
  | _ => exact ⟨_, _, rfl, rfl⟩

theorem scanOnto?_next {found : List JsonToken} {c : Char} {cs rest : List Char} {t : JsonToken}
    (hspace : isSpace c = Bool.false) (h : next? (c :: cs) = some (t, rest)) :
    scanOnto? found (c :: cs) = scanOnto? (t :: found) rest := by
  rw [scanOnto?, if_neg (by simp [hspace])]
  split <;> simp_all

theorem scanOnto?_texts {tokens : List JsonToken} {cs : List Char} (h : Texts tokens cs)
    (found : List JsonToken) : scanOnto? found cs = some (found.reverse ++ tokens) := by
  -- The scanner lists what it found last first, so what was found before is arbitrary.
  induction h generalizing found with
  | nil => simp [scanOnto?]
  | space hspace _ ih => rw [scanOnto?, if_pos hspace, ih]
  | token hspells hends _ ih =>
      obtain ⟨c, cs, rfl, hspace⟩ := hspells.exists_start
      have hnext := next?_spells hspells hends
      rw [List.cons_append] at hnext ⊢
      rw [scanOnto?_next hspace hnext, ih]
      simp

/-- The tokens of a text are found. -/
theorem scan?_texts {tokens : List JsonToken} {cs : List Char} (h : Texts tokens cs) :
    scan? cs = some tokens := by
  rw [scan?, scanOnto?_texts h]
  rfl

end Tokens

section Written

theorem hex?_hexChar :
    ∀ n < 0x20, Text.hex? ['0', '0', Text.hexChar (n / 16), Text.hexChar (n % 16)] = some n := by
  decide

/-- A character as it is written spells itself. -/
theorem spelled_escaped (c : Char) {units : List Nat} {cs : List Char} (h : Spelled units cs) :
    Spelled (c.toNat :: units) (Json.escaped c ++ cs) := by
  unfold Json.escaped
  split_ifs with hquote hbackslash _ _ _ _ _ hcontrol
  -- Seven characters have an escape of one letter, and the other control characters a number.
  iterate 7
    · subst c
      exact .short (by decide) h
  · exact .hex (hex?_hexChar _ hcontrol) h
  · exact .plain (Nat.le_of_not_lt hcontrol) hquote hbackslash h

theorem spelled_flatMap (cs : List Char) :
    Spelled (cs.map Char.toNat) (cs.flatMap Json.escaped) := by
  induction cs with
  | nil => exact .nil
  | cons c cs ih => exact spelled_escaped c ih

/-- A string as it is written spells itself. -/
theorem spells_quoted (text : Option String) : Spells (string text) (Json.quoted text) := by
  cases text with
  | none => exact Spells.string (.hex (a := 'd') (b := '8') (c := '0') (d := '0') rfl .nil)
  | some text =>
      have h := Spells.string (spelled_flatMap text.toList)
      rw [ofUnits?_toNat] at h
      simpa [Json.quoted] using h

end Written

end JsonToken

end CoreShell
