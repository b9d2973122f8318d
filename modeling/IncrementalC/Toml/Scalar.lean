/-!
Contract: the plain values of TOML.

A plain value is a word that says by its form what it is: a boolean, an integer, a
decimal, or a date or time. Nothing depends on the size of a decimal or on the instant
of a date, so that these keep no value; a decimal that exceeds every double is refused
all the same, and so is a date that is in no calendar.

Owns:
- the plain values, strings among them;
- what a word denotes.

Does not own: strings in quotes, and where a word ends.
-/

namespace IncrementalC.Toml

/-- Values that have no parts. -/
inductive Scalar where
  | text (content : String)
  | integer (value : Int)
  | boolean (value : Bool)
  | decimal
  /-- A date, a time, or both. -/
  | moment
deriving DecidableEq, Repr

namespace Scalar

/-! ## Digits -/

/-- The digits of a number without the underscores that group them; an underscore has
to stand between two digits. -/
def groupedDigits? (isDigit : Char → Bool) : List Char → Option (List Char)
  | [] => none
  | [digit] => if isDigit digit then some [digit] else none
  | digit :: '_' :: rest =>
    if isDigit digit then (groupedDigits? isDigit rest).map (digit :: ·) else none
  | digit :: rest =>
    if isDigit digit then (groupedDigits? isDigit rest).map (digit :: ·) else none

/-- The value of a digit in any base up to sixteen; sixteen for what is no digit. -/
def digitValue (digit : Char) : Nat :=
  if digit.isDigit then digit.toNat - '0'.toNat
  else if 'a' ≤ digit ∧ digit ≤ 'f' then digit.toNat - 'a'.toNat + 10
  else if 'A' ≤ digit ∧ digit ≤ 'F' then digit.toNat - 'A'.toNat + 10
  else 16

/-- The number that digits of a base denote. -/
def natural (base : Nat) (digits : List Char) : Nat :=
  digits.foldl (fun value digit => value * base + digitValue digit) 0

/-- The decimal digits of the whole part of a number; the only one that starts with a
zero is zero. -/
def wholeDigits? (word : List Char) : Option (List Char) :=
  if word.head? = some '0' ∧ word ≠ ['0'] then none else groupedDigits? Char.isDigit word

/-- A word without its sign, and whether the sign is a minus. -/
def unsigned : List Char → Bool × List Char
  | '-' :: rest => (true, rest)
  | '+' :: rest => (false, rest)
  | word => (false, word)

/-! ## Integers -/

/-- The integer that a word with a base in front or a sign denotes, whatever its
size. -/
def anyInteger? : List Char → Option Int
  | '0' :: 'x' :: digits => based 16 digits
  | '0' :: 'o' :: digits => based 8 digits
  | '0' :: 'b' :: digits => based 2 digits
  | word =>
    let (isNegative, digits) := unsigned word
    (wholeDigits? digits).map fun digits =>
      if isNegative then -(natural 10 digits : Int) else natural 10 digits
where
  /-- The number that grouped digits of a base denote. -/
  based (base : Nat) (digits : List Char) : Option Int :=
    (groupedDigits? (fun digit => decide (digitValue digit < base)) digits).map
      fun digits => (natural base digits : Int)

/-- The integer that a word denotes, if 64 bits hold it. -/
def integer? (word : List Char) : Option Int :=
  (anyInteger? word).filter fun value => decide (-0x8000000000000000 ≤ value ∧ value < 0x8000000000000000)

/-! ## Decimals -/

/-- The least number that is rounded beyond every double: the middle between the
largest double and the next power of two. -/
def overflowBound : Nat := Nat.pow 2 1024 - Nat.pow 2 970

/-- Whether `digits` times a power of ten is rounded beyond every double. Only numbers
of exactly 309 digits before the point need to be computed. -/
def overflows (digits : List Char) (exponent : Int) : Bool :=
  let significant := digits.dropWhile (· == '0')
  let size : Int := significant.length + exponent
  if significant.isEmpty ∨ size < 309 then false
  else if 309 < size then true
  else
    decide (overflowBound * Nat.pow 10 (-exponent).toNat
      ≤ natural 10 significant * Nat.pow 10 exponent.toNat)

/-- The exponent that follows the `e` of a decimal. -/
def exponent? (word : List Char) : Option Int :=
  let (isNegative, digits) := unsigned word
  (groupedDigits? Char.isDigit digits).map fun digits =>
    if isNegative then -(natural 10 digits : Int) else natural 10 digits

/-- The digits after the point and the exponent of a decimal; one of them is
required. -/
def fraction? : List Char → Option (List Char × Int)
  | '.' :: rest =>
    let isExponentMark (character : Char) : Bool := character == 'e' || character == 'E'
    match rest.dropWhile (! isExponentMark ·) with
    | [] => (groupedDigits? Char.isDigit rest).map fun digits => (digits, 0)
    | _ :: exponent => do
      let digits ← groupedDigits? Char.isDigit (rest.takeWhile (! isExponentMark ·))
      return (digits, ← exponent? exponent)
  | 'e' :: exponent | 'E' :: exponent => (exponent? exponent).map fun value => ([], value)
  | _ => none

/-- Whether a word is a decimal. A number that is too large is none; one that is too
small below zero is taken as minus infinity. -/
def isDecimal (word : List Char) : Bool :=
  let (isNegative, body) := unsigned word
  let isWholePart (character : Char) : Bool := character.isDigit || character == '_'
  if body = ['i', 'n', 'f'] ∨ body = ['n', 'a', 'n'] then true
  else
    match wholeDigits? (body.takeWhile isWholePart), fraction? (body.dropWhile isWholePart) with
    | some whole, some (fraction, exponent) =>
      isNegative || !overflows (whole ++ fraction) (exponent - fraction.length)
    | _, _ => false

/-! ## Dates and times -/

/-- The number of days of a month. -/
def daysOfMonth (year month : Nat) : Nat :=
  if month = 2 then
    if year % 4 = 0 ∧ (year % 100 ≠ 0 ∨ year % 400 = 0) then 29 else 28
  else if month = 4 ∨ month = 6 ∨ month = 9 ∨ month = 11 then 30
  else 31

/-- The number that a given count of decimal digits denotes. -/
def digits? (count : Nat) (word : List Char) : Option Nat :=
  if word.length = count ∧ word.all Char.isDigit then some (natural 10 word) else none

/-- Whether a word is a date `year-month-day` of the calendar. -/
def isDate (word : List Char) : Bool :=
  match digits? 4 (word.take 4), digits? 2 ((word.drop 5).take 2), digits? 2 (word.drop 8) with
  | some year, some month, some day =>
    decide (word[4]? = some '-' ∧ word[7]? = some '-' ∧
      1 ≤ month ∧ month ≤ 12 ∧ 1 ≤ day ∧ day ≤ daysOfMonth year month)
  | _, _, _ => false

/-- Whether a word is `hour:minute`. -/
def isClock (word : List Char) : Bool :=
  match digits? 2 (word.take 2), digits? 2 (word.drop 3) with
  | some hour, some minute => decide (word[2]? = some ':' ∧ hour ≤ 23 ∧ minute ≤ 59)
  | _, _ => false

/-- Whether a word is `hour:minute:second`, with digits after a point if any. A second
may be a leap second. -/
def isTime (word : List Char) : Bool :=
  let fraction := word.drop 8
  match digits? 2 ((word.drop 6).take 2) with
  | some second =>
    isClock (word.take 5) && decide (word[5]? = some ':' ∧ second ≤ 60) &&
      (fraction.isEmpty ||
        (decide (fraction.head? = some '.' ∧ fraction.length ≠ 1) && fraction.tail.all Char.isDigit))
  | none => false

/-- Whether a word is the distance of a clock from universal time. -/
def isOffset : List Char → Bool
  | ['Z'] | ['z'] => true
  | '+' :: clock | '-' :: clock => isClock clock
  | _ => false

/-- Whether a word is a time with an offset, if any. -/
def isTimeOfDate (word : List Char) : Bool :=
  let isTimePart (character : Char) : Bool :=
    character.isDigit || character == ':' || character == '.'
  let offset := word.dropWhile isTimePart
  isTime (word.takeWhile isTimePart) && (offset.isEmpty || isOffset offset)

/-- Whether a word is a date, a time, or a date and a time of it. -/
def isMoment (word : List Char) : Bool :=
  isTime word || isDate word ||
    (isDate (word.take 10) && isTimeOfDate (word.drop 11) &&
      (match word[10]? with
        | some 'T' | some 't' | some ' ' => true
        | _ => false))

/-! ## Words -/

/-- What a word denotes. -/
def ofWord? (word : List Char) : Option Scalar :=
  if word = ['t', 'r', 'u', 'e'] then some (.boolean true)
  else if word = ['f', 'a', 'l', 's', 'e'] then some (.boolean false)
  else
    match integer? word with
    | some value => some (.integer value)
    | none =>
      if isDecimal word then some .decimal
      else if isMoment word then some .moment
      else none

end Scalar

end IncrementalC.Toml
