import CoreShell.Toml.Basic
import CoreShell.Toml.Quoted

/-!
# Bare Scalars

Values without quotes or brackets: truth values, integers in four bases,
floating-point numbers, and dates and times. A scalar is a run of words with
blanks between them up to the next delimiter, and the run as a whole has to be
one of these. Few runs of more than one word are: a date with its time, and
integers that stand for no number.

Digits may be grouped by underscores, and a decimal number does not begin with
a zero unless it is zero. An integer is told by its outline alone: a base may
come without digits, and what follows the first group of a decimal integer is
not looked at closely. Whether the outline stands for a number is settled by
its value. Dates are checked against the calendar; a time may leave out its
seconds.

## Main definitions

* `Toml.isGrouped`: Whether underscores stand where they may.
* `Toml.based?`, `Toml.decimal?`: The integer a run stands for.
* `Toml.float?`: The floating-point number a run stands for.
* `Toml.isMoment`: Whether a run is a date, a time or both.
* `Toml.scalar?`: The scalar at the start of a text.
-/

namespace CoreShell

namespace Toml

/-- Whether every underscore in a run stands between two digits. -/
def isGrouped (isDigit : Char → Bool) (run : List Char) : Bool :=
  let groups := run.splitOn '_'
  groups.tail.all (fun group => group.head?.any isDigit) &&
    groups.dropLast.all fun group => group.getLast?.any isDigit

/-- Whether a character is a digit of a base up to sixteen. -/
def isDigitOf (base : Nat) (c : Char) : Bool :=
  (Text.hexDigit? c).any (· < base)

/-- The number that digits of a base up to sixteen stand for. -/
def ofDigits (base : Nat) (digits : List Char) : Nat :=
  digits.foldl (fun n c => base * n + (Text.hexDigit? c).getD 0) 0

/-- The number that a run stands for without its underscores, if there is
    nothing but digits left and at least one of them. -/
def number? (base : Nat) (run : List Char) : Option Int :=
  let digits := run.filter (· ≠ '_')
  if !digits.isEmpty && digits.all (isDigitOf base) then some (ofDigits base digits) else none

/-- The integer with a run of digits behind the letter of its base. There may
    be none. -/
def based? (base : Nat) (run : List Char) : Option Toml :=
  if run.all (fun c => c = '_' || isDigitOf base c) && isGrouped (isDigitOf 16) run then
    some (ofInteger (number? base run))
  else none

/-- A run without its sign, and whether the sign is a minus. -/
def unsigned : List Char → Bool × List Char
  | '+' :: run => (false, run)
  | '-' :: run => (true, run)
  | run => (false, run)

/-- Whether a character opens the exponent of a number. -/
def opensExponent (c : Char) : Bool :=
  c = 'e' || c = 'E'

/-- Whether a character can only stand in a floating-point number. -/
def marksFloat (c : Char) : Bool :=
  c = '.' || opensExponent c

/-- Whether a run without sign has the outline of a decimal integer: digits,
    and anything behind an underscore that is no floating-point number and has
    no space. Only zero begins with a zero. -/
def isWhole (run : List Char) : Bool :=
  (run = ['0'] || run.head?.any (· ≠ '0')) &&
    (match run.dropWhile Char.isDigit with
      | [] => true
      | c :: rest => c = '_' && !rest.any fun d => marksFloat d || d = ' ')

/-- The decimal integer a run stands for. -/
def decimal? (run : List Char) : Option Toml :=
  let (negative, digits) := unsigned run
  if isWhole digits && isGrouped (isDigitOf 16) run then
    some (ofInteger ((number? 10 digits).map fun n => if negative then -n else n))
  else none

/-- The integer a run stands for. Only decimal integers have a sign. -/
def integer? : List Char → Option Toml
  | '0' :: 'x' :: run => based? 16 run
  | '0' :: 'o' :: run => based? 8 run
  | '0' :: 'b' :: run => based? 2 run
  | run => decimal? run

/-- The digits in a run of digits and underscores, if there are any. -/
def digits? (run : List Char) : Option (List Char) :=
  let digits := run.filter Char.isDigit
  if !digits.isEmpty && run.all (fun c => c.isDigit || c = '_') then some digits else none

/-- The digits in front of the point of a number. They begin with a zero only
    if that is all. -/
def whole? (run : List Char) : Option (List Char) := do
  let digits ← digits? run
  if digits.head? = some '0' ∧ digits ≠ ['0'] then none else some digits

/-- The least number that rounds beyond the largest double. -/
def doubleLimit : Nat := Nat.pow 2 1024 - Nat.pow 2 970

/-- Whether `digits` times ten to the power of `scale` rounds to a double.
    The number of digits alone decides all but one size. -/
def fitsDouble (digits : List Char) (scale : Int) : Bool :=
  let significant := digits.dropWhile (· = '0')
  let size := (significant.length : Int) + scale
  if significant.isEmpty || size ≤ 308 then true
  else if 309 < size then false
  else if 0 ≤ scale then ofDigits 10 significant * Nat.pow 10 scale.toNat < doubleLimit
  else ofDigits 10 significant < doubleLimit * Nat.pow 10 (-scale).toNat

/-- The exponent that a run behind its letter stands for. -/
def exponent? (run : List Char) : Option Int := do
  let (negative, run) := unsigned run
  let digits ← digits? run
  let value : Int := ofDigits 10 digits
  return if negative then -value else value

/-- The fraction digits and the exponent of a number behind its whole part.
    One of the two must be there. -/
def tail? (run : List Char) : Option (List Char × Int) :=
  match run with
  | '.' :: behind => do
    let fraction ← digits? (behind.takeWhile fun c => !opensExponent c)
    match behind.dropWhile fun c => !opensExponent c with
    | [] => return (fraction, 0)
    | _ :: power => return (fraction, ← exponent? power)
  | c :: power => if opensExponent c then (exponent? power).map ([], ·) else none
  | [] => none

/-- The floating-point number a run stands for. -/
def float? (run : List Char) : Option Toml :=
  let (_, number) := unsigned run
  if number = ['i', 'n', 'f'] ∨ number = ['n', 'a', 'n'] then some .float
  else if !isGrouped Char.isDigit run then none
  else do
    let whole ← whole? (number.takeWhile fun c => !marksFloat c)
    let (fraction, power) ← tail? (number.dropWhile fun c => !marksFloat c)
    return if fitsDouble (whole ++ fraction) (power - fraction.length) then .float
      else .unreadable

/-- The number that two digits stand for. -/
def two? (a b : Char) : Option Nat :=
  if a.isDigit && b.isDigit then some (ofDigits 10 [a, b]) else none

/-- Whether a year has a day more. -/
def isLeap (year : Nat) : Bool :=
  year % 4 = 0 && (year % 100 ≠ 0 || year % 400 = 0)

/-- The number of days in a month. -/
def daysIn (year month : Nat) : Nat :=
  if month = 2 then (if isLeap year then 29 else 28)
  else if month = 4 ∨ month = 6 ∨ month = 9 ∨ month = 11 then 30
  else 31

/-- What follows a date at the start of a run. -/
def afterDate? : List Char → Option (List Char)
  | y₁ :: y₂ :: y₃ :: y₄ :: '-' :: m₁ :: m₂ :: '-' :: d₁ :: d₂ :: rest => do
    let century ← two? y₁ y₂
    let decade ← two? y₃ y₄
    let month ← two? m₁ m₂
    let day ← two? d₁ d₂
    if 1 ≤ month ∧ month ≤ 12 ∧ 1 ≤ day ∧ day ≤ daysIn (100 * century + decade) month then
      some rest
    else none
  | _ => none

/-- What follows the fraction of a second, if there is one. -/
def afterFraction? : List Char → Option (List Char)
  | '.' :: rest =>
    if (rest.takeWhile Char.isDigit).isEmpty then none else some (rest.dropWhile Char.isDigit)
  | rest => some rest

/-- What follows the seconds of a time, if it has them. A leap second is
    allowed. -/
def afterSeconds? : List Char → Option (List Char)
  | ':' :: a :: b :: rest => do
    let second ← two? a b
    if second ≤ 60 then afterFraction? rest else none
  | rest => some rest

/-- What follows a time at the start of a run. -/
def afterTime? : List Char → Option (List Char)
  | h₁ :: h₂ :: ':' :: m₁ :: m₂ :: rest => do
    let hour ← two? h₁ h₂
    let minute ← two? m₁ m₂
    if hour ≤ 23 ∧ minute ≤ 59 then afterSeconds? rest else none
  | _ => none

/-- Whether a run is an offset from universal time, or empty. -/
def isOffset : List Char → Bool
  | [] => true
  | [c] => c = 'Z' || c = 'z'
  | [sign, h₁, h₂, ':', m₁, m₂] =>
    (sign = '+' || sign = '-') &&
      (match two? h₁ h₂, two? m₁ m₂ with
        | some hour, some minute => hour ≤ 23 && minute ≤ 59
        | _, _ => false)
  | _ => false

/-- Whether a run is a date, a time, or a date with a time and perhaps an
    offset. -/
def isMoment (run : List Char) : Bool :=
  match afterDate? run with
  | some [] => true
  | some (c :: time) =>
    (c = 'T' || c = 't' || c = ' ') && (afterTime? time).any isOffset
  | none => afterTime? run = some []

/-- Whether a character ends a word. Quotes do not. -/
def endsWord (c : Char) : Bool :=
  c ∈ [' ', '\t', '\n', '\r', '#', ',', '[', ']', '{', '}', '=']

/-- Whether a text starts with a word. Quotes in front make it a quoted text. -/
def startsWord (cs : List Char) : Bool :=
  cs.head?.any fun c => !endsWord c && c ≠ '"' && c ≠ '\''

/-- The run of words at the start of a text with the blanks between them, and
    the rest behind the last word. -/
def run (cs : List Char) : List Char × List Char :=
  let word := cs.takeWhile fun c => !endsWord c
  let rest := cs.dropWhile fun c => !endsWord c
  let next := rest.dropWhile isIndent
  if _h : next.length < rest.length ∧ startsWord next then
    let more := run next
    (word ++ rest.takeWhile isIndent ++ more.1, more.2)
  else (word, rest)
termination_by cs.length
decreasing_by
  exact Nat.lt_of_lt_of_le _h.1 (List.dropWhile_sublist _).length_le

/-- The value that a whole run stands for. -/
def ofRun? (run : List Char) : Option Toml :=
  if run = ['t', 'r', 'u', 'e'] then some (.boolean true)
  else if run = ['f', 'a', 'l', 's', 'e'] then some (.boolean false)
  else
    match integer? run with
    | some value => some value
    | none =>
      match float? run with
      | some value => some value
      | none => if isMoment run then some .moment else none

/-- The bare scalar at the start of a text, and the rest behind it. -/
def scalar? (cs : List Char) : Option (Toml × List Char) :=
  let (head, rest) := run cs
  (ofRun? head).map (·, rest)

end Toml

end CoreShell
