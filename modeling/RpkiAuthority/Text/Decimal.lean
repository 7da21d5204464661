/-!
# Decimal numerals

Reading a natural number with an upper bound. A numeral is a run of ASCII digits, with an optional
plus sign before it; leading zeros are allowed, white space and other digits are not. A number
above the bound is refused. Numbers are written with `Nat.repr`, which this reader reads back.
-/

namespace RpkiAuthority.Text

/-- Whether a text is a non-empty run of ASCII digits. -/
def isNumeral (l : List Char) : Bool := !l.isEmpty && l.all Char.isDigit

/-- The number a run of digits stands for. -/
def digitsValue (l : List Char) : Nat := Nat.ofDigitChars 10 l 0

/-- Reads a run of digits as a number of at most `max`. -/
def readNumeral (max : Nat) (l : List Char) : Option Nat :=
  if isNumeral l then
    if digitsValue l ≤ max then some (digitsValue l) else none
  else none

/-- Reads a run of digits after an optional plus sign as a number of at most `max`. -/
def readNat (max : Nat) : List Char → Option Nat
  | '+' :: rest => readNumeral max rest
  | l => readNumeral max l

/-- The largest number of 8 bits. -/
def max8 : Nat := 0xff

/-- The largest number of 32 bits. -/
def max32 : Nat := 0xffffffff

/-- The largest number of 64 bits. -/
def max64 : Nat := 0xffffffffffffffff

/-- The lower case hexadecimal digits of a number, without leading zeros. -/
def hexDigits (n : Nat) : List Char := Nat.toDigits 16 n

/-- The value of a hexadecimal digit of either case. -/
def hexValue? (c : Char) : Option Nat :=
  if c.isDigit then some (c.toNat - '0'.toNat)
  else if 'a' ≤ c ∧ c ≤ 'f' then some (c.toNat - 'a'.toNat + 10)
  else if 'A' ≤ c ∧ c ≤ 'F' then some (c.toNat - 'A'.toNat + 10)
  else none

/-- The lower case hexadecimal digits of a number, filled up with zeros to a width. -/
def hexPadded (width n : Nat) : String :=
  let digits := hexDigits n
  String.ofList (List.replicate (width - digits.length) '0' ++ digits)

/-- The decimal digits of a number, filled up with zeros to a width. -/
def decimalPadded (width n : Nat) : String :=
  let digits := Nat.toDigits 10 n
  String.ofList (List.replicate (width - digits.length) '0' ++ digits)

end RpkiAuthority.Text
