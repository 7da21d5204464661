import RpkiAuthority.Text.Blank
import RpkiAuthority.Text.Decimal
import RpkiAuthority.Text.Pieces

/-!
# Times

A time is a day of the Gregorian calendar, a second of that day in UTC and a fraction. The text is
that of RFC 3339. Times are written in UTC; they are read with any offset, and with some leniency:
blanks between the parts, numbers of fewer digits, a blank instead of the letter `T`, and years of
more digits after a sign. A leap second is kept as a fraction of one second or more.
-/

namespace RpkiAuthority

/-- A date of the Gregorian calendar. -/
structure Date where
  year : Int
  month : Nat
  day : Nat
  deriving DecidableEq, Repr

namespace Date

/-- Whether a year has a 29 February. -/
def isLeapYear (y : Int) : Bool := y % 4 == 0 && (y % 100 != 0 || y % 400 == 0)

/-- The number of days of a month. -/
def daysInMonth (year : Int) (month : Nat) : Nat :=
  if month = 2 then (if isLeapYear year then 29 else 28)
  else if month = 4 ∨ month = 6 ∨ month = 9 ∨ month = 11 then 30
  else 31

/-- Whether the calendar has the date. -/
def isValid (d : Date) : Bool :=
  1 ≤ d.month && d.month ≤ 12 && 1 ≤ d.day && d.day ≤ daysInMonth d.year d.month

/-- The years that dates can have. -/
def isInRange (d : Date) : Bool := -262143 ≤ d.year && d.year ≤ 262142

/-- The number of days from 1 January 1970. Counting starts with March, so that the day added in
leap years is the last one. -/
def toDays (d : Date) : Int :=
  let y : Int := if d.month ≤ 2 then d.year - 1 else d.year
  let era := y / 400
  let yearOfEra := y % 400
  let monthFromMarch : Int := ((d.month + 9) % 12 : Nat)
  let dayOfYear := (153 * monthFromMarch + 2) / 5 + d.day - 1
  era * 146097 + yearOfEra * 365 + yearOfEra / 4 - yearOfEra / 100 + dayOfYear - 719468

/-- The date at a number of days from 1 January 1970. -/
def ofDays (days : Int) : Date :=
  let z := days + 719468
  let era := z / 146097
  let dayOfEra := z % 146097
  let yearOfEra := (dayOfEra - dayOfEra / 1460 + dayOfEra / 36524 - dayOfEra / 146096) / 365
  let dayOfYear := dayOfEra - (365 * yearOfEra + yearOfEra / 4 - yearOfEra / 100)
  let monthFromMarch := (5 * dayOfYear + 2) / 153
  let month := if monthFromMarch < 10 then monthFromMarch + 3 else monthFromMarch - 9
  let year := yearOfEra + era * 400 + (if month ≤ 2 then 1 else 0)
  ⟨year, month.toNat, (dayOfYear - (153 * monthFromMarch + 2) / 5 + 1).toNat⟩

/-- The written form: years of four digits, others with a sign. -/
def text (d : Date) : String :=
  let year :=
    if 0 ≤ d.year ∧ d.year ≤ 9999 then Text.decimalPadded 4 d.year.toNat
    else if 0 ≤ d.year then "+" ++ Text.decimalPadded 4 d.year.toNat
    else "-" ++ Text.decimalPadded 4 (-d.year).toNat
  year ++ "-" ++ Text.decimalPadded 2 d.month ++ "-" ++ Text.decimalPadded 2 d.day

end Date

/-- A time in UTC. -/
structure Timestamp where
  /-- Days from 1 January 1970. -/
  day : Int
  /-- Seconds of the day. -/
  second : Nat
  /-- Nanoseconds; from a thousand million on, a leap second follows the second. -/
  nano : Nat
  deriving DecidableEq, Repr

namespace Timestamp

/-- The start of 1 January 1970. -/
def epoch : Timestamp := ⟨0, 0, 0⟩

/-- Nanoseconds in a second. -/
def nanosPerSecond : Nat := 1000000000

/-! ### Writing -/

/-- Hours, minutes and seconds. -/
def clockText (t : Timestamp) : String :=
  let leap := if nanosPerSecond ≤ t.nano then 1 else 0
  Text.decimalPadded 2 (t.second / 3600) ++ ":" ++ Text.decimalPadded 2 (t.second / 60 % 60) ++ ":"
    ++ Text.decimalPadded 2 (t.second % 60 + leap)

/-- The fraction with three, six or nine digits, whichever is the first to be exact. -/
def fractionText (nano : Nat) : String :=
  if nano = 0 then ""
  else if nano % 1000000 = 0 then "." ++ Text.decimalPadded 3 (nano / 1000000)
  else if nano % 1000 = 0 then "." ++ Text.decimalPadded 6 (nano / 1000)
  else "." ++ Text.decimalPadded 9 nano

/-- The written form without the fraction. -/
def textToSeconds (t : Timestamp) : String := (Date.ofDays t.day).text ++ "T" ++ t.clockText ++ "Z"

/-- The written form. -/
def text (t : Timestamp) : String :=
  (Date.ofDays t.day).text ++ "T" ++ t.clockText ++ fractionText (t.nano % nanosPerSecond) ++ "Z"

/-! ### Reading -/

/-- Reads a number of one to `width` digits after blanks. -/
def readDigits (width : Nat) (l : List Char) : Option (Nat × List Char) :=
  let l := l.dropWhile Text.isBlank
  let digits := (l.take width).takeWhile Char.isDigit
  if digits.isEmpty then none else some (Text.digitsValue digits, l.drop digits.length)

/-- Reads a number in the given range. -/
def readPart (least most : Nat) (l : List Char) : Option (Nat × List Char) := do
  let (n, l) ← readDigits 2 l
  if least ≤ n ∧ n ≤ most then some (n, l) else none

/-- Reads a year: four digits, or any number of them after a sign. -/
def readYear (l : List Char) : Option (Int × List Char) :=
  match l.dropWhile Text.isBlank with
  | '-' :: rest => signed rest fun n => -n
  | '+' :: rest => signed rest fun n => n
  | l => (readDigits 4 l).map fun (n, rest) => ((n : Int), rest)
where
  signed (rest : List Char) (sign : Int → Int) : Option (Int × List Char) :=
    let digits := rest.takeWhile Char.isDigit
    if digits.isEmpty then none
    else some (sign (Text.digitsValue digits), rest.drop digits.length)

/-- Reads a character after blanks. -/
def readMark (mark : Char) (l : List Char) : Option (List Char) :=
  match l.dropWhile Text.isBlank with
  | c :: rest => if c = mark then some rest else none
  | [] => none

/-- Reads an optional fraction as nanoseconds. Digits after the ninth do not count. -/
def readFraction : List Char → Option (Nat × List Char)
  | '.' :: l =>
    let digits := l.takeWhile Char.isDigit
    if digits.isEmpty then none
    else
      let counted := digits.take 9
      some (Text.digitsValue counted * Nat.pow 10 (9 - counted.length), l.drop digits.length)
  | l => some (0, l)

/-- Reads hours and minutes of an offset after its sign, as seconds. -/
def readOffsetDigits : List Char → Option (Nat × List Char)
  | h :: i :: rest =>
    if h.isDigit ∧ i.isDigit then
      match rest.dropWhile fun c => c == ':' || Text.isBlank c with
      | m :: n :: after =>
        if m.isDigit ∧ n.isDigit ∧ m < '6' then
          some (Text.digitsValue [h, i] * 3600 + Text.digitsValue [m, n] * 60, after)
        else none
      | _ => none
    else none
  | _ => none

/-- Reads an offset from UTC, as seconds: a letter `Z`, the letters `UTC`, or a sign, hours and
minutes of less than a day. -/
def readOffset (l : List Char) : Option (Int × List Char) :=
  match l.dropWhile Text.isBlank with
  | u :: t :: c :: rest =>
    if [u, t, c].map Char.toLower = ['u', 't', 'c'] then some (0, rest)
    else one (u :: t :: c :: rest)
  | l => one l
where
  one : List Char → Option (Int × List Char)
    | s :: rest =>
      if s = 'Z' ∨ s = 'z' then some (0, rest)
      else if s = '+' then within (readOffsetDigits rest) fun n => n
      else if s = '-' ∨ s = '\u2212' then within (readOffsetDigits rest) fun n => -n
      else none
    | [] => none
  within (offset : Option (Nat × List Char)) (sign : Int → Int) : Option (Int × List Char) := do
    let (n, rest) ← offset
    if n < 86400 then some (sign n, rest) else none

/-- The time that shows a date and a clock at an offset. -/
def ofLocal (date : Date) (hour minute second nano : Nat) (offset : Int) : Option Timestamp :=
  let leap := second = 60
  let shown : Int := ((hour * 3600 + minute * 60 + (if leap then 59 else second) : Nat) : Int)
  let utc := shown - offset
  let t : Timestamp := ⟨date.toDays + utc / 86400, (utc % 86400).toNat,
    if leap then nano + nanosPerSecond else nano⟩
  if date.isValid && date.isInRange && (Date.ofDays t.day).isInRange then some t else none

/-- Reads a time. -/
def parse (s : String) : Option Timestamp := do
  let (year, l) ← readYear s.toList
  let (month, l) ← readPart 1 12 (← readMark '-' l)
  let (day, l) ← readPart 1 31 (← readMark '-' l)
  let l ← match l with
    | c :: rest => if c = 'T' ∨ c = 't' ∨ c = ' ' then some rest else none
    | [] => none
  let (hour, l) ← readPart 0 23 l
  let (minute, l) ← readPart 0 59 (← readMark ':' l)
  let (second, l) ← readPart 0 60 (← readMark ':' l)
  let (nano, l) ← readFraction l
  let (offset, l) ← readOffset l
  if l.all Text.isBlank then ofLocal ⟨year, month, day⟩ hour minute second nano offset else none

end Timestamp

end RpkiAuthority
