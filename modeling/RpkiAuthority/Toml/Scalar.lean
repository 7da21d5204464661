import RpkiAuthority.Json.Value
import RpkiAuthority.Text.Decimal
import RpkiAuthority.Text.Pieces
import RpkiAuthority.Time.Timestamp
import RpkiAuthority.Toml.Value

/-!
# Strings, numbers and times of TOML

Each reader takes a value off the front of a text and gives what follows it.
-/

namespace RpkiAuthority.TomlText

/-! ### Blanks -/

/-- A blank within a line. -/
def isGap (c : Char) : Bool := c == ' ' || c == '\t'

/-- Drops blanks within a line. -/
def skipGap (l : List Char) : List Char := l.dropWhile isGap

/-- The text after a line end. -/
def afterLineEnd? : List Char → Option (List Char)
  | '\n' :: rest => some rest
  | '\r' :: '\n' :: rest => some rest
  | _ => none

/-- Whether a character may stand in a comment or literal string. -/
def isPlain (c : Char) : Bool := c == '\t' || (0x20 ≤ c.toNat && c.toNat ≠ 0x7f)

/-- Drops a comment. -/
def skipComment : List Char → List Char
  | '#' :: rest => rest.dropWhile isPlain
  | l => l

/-! ### Strings -/

/-- The character of a number, if there is one. -/
def scalarOf (digits : List Char) : Option Char := do
  let n ← digits.foldlM (fun n c => (Text.hexValue? c).map (n * 16 + ·)) 0
  if n.isValidChar then some (Char.ofNat n) else none

/-- The character that an escape of one character stands for. -/
def shortEscape? : Char → Option Char
  | 'b' => some '\x08'
  | 't' => some '\t'
  | 'n' => some '\n'
  | 'f' => some '\x0c'
  | 'r' => some '\r'
  | '"' => some '"'
  | '\\' => some '\\'
  | _ => none

/-- Puts a character before what was read. -/
def prepend (c : Char) : Option (List Char × List Char) → Option (List Char × List Char)
  | some (s, rest) => some (c :: s, rest)
  | none => none

/-- Reads a string after its opening quote. -/
def readBasic : List Char → Option (List Char × List Char)
  | [] => none
  | '"' :: rest => some ([], rest)
  | '\\' :: 'u' :: a :: b :: c :: d :: rest => do
    prepend (← scalarOf [a, b, c, d]) (readBasic rest)
  | '\\' :: 'U' :: a :: b :: c :: d :: e :: f :: g :: h :: rest => do
    prepend (← scalarOf [a, b, c, d, e, f, g, h]) (readBasic rest)
  | '\\' :: e :: rest => do prepend (← shortEscape? e) (readBasic rest)
  | c :: rest => if isPlain c ∧ c ≠ '\\' then prepend c (readBasic rest) else none

/-- Reads a literal string after its opening apostrophe. -/
def readLiteral : List Char → Option (List Char × List Char)
  | [] => none
  | '\'' :: rest => some ([], rest)
  | c :: rest => if isPlain c then prepend c (readLiteral rest) else none

/-- Reads a string of several lines after its opening quotes. After a backslash at the end of a line
(`trimming`) all blanks up to the next other character are dropped. Up to two quotes may stand
before the closing ones. -/
def readLongBasic (trimming : Bool) : List Char → Option (List Char × List Char)
  | '"' :: '"' :: '"' :: '"' :: '"' :: rest => some (['"', '"'], rest)
  | '"' :: '"' :: '"' :: '"' :: rest => some (['"'], rest)
  | '"' :: '"' :: '"' :: rest => some ([], rest)
  | '\\' :: 'u' :: a :: b :: c :: d :: rest => do
    prepend (← scalarOf [a, b, c, d]) (readLongBasic false rest)
  | '\\' :: 'U' :: a :: b :: c :: d :: e :: f :: g :: h :: rest => do
    prepend (← scalarOf [a, b, c, d, e, f, g, h]) (readLongBasic false rest)
  | '\\' :: e :: rest =>
    match shortEscape? e with
    | some c => prepend c (readLongBasic false rest)
    | none =>
      if (afterLineEnd? (skipGap (e :: rest))).isSome then readLongBasic true (e :: rest) else none
  | '\r' :: '\n' :: rest =>
    if trimming then readLongBasic true rest else prepend '\n' (readLongBasic false rest)
  | c :: rest =>
    if trimming ∧ (isGap c ∨ c = '\n') then readLongBasic true rest
    else if (isPlain c ∨ c = '\n') ∧ c ≠ '\\' then prepend c (readLongBasic false rest)
    else none
  | [] => none

/-- Reads a literal string of several lines after its opening apostrophes. -/
def readLongLiteral : List Char → Option (List Char × List Char)
  | '\'' :: '\'' :: '\'' :: '\'' :: '\'' :: rest => some (['\'', '\''], rest)
  | '\'' :: '\'' :: '\'' :: '\'' :: rest => some (['\''], rest)
  | '\'' :: '\'' :: '\'' :: rest => some ([], rest)
  | '\r' :: '\n' :: rest => prepend '\n' (readLongLiteral rest)
  | c :: rest => if isPlain c ∨ c = '\n' then prepend c (readLongLiteral rest) else none
  | [] => none

/-- Drops a line end right after the opening of a string of several lines. -/
def skipFirstLineEnd (l : List Char) : List Char := (afterLineEnd? l).getD l

/-- Reads a string of any kind. -/
def readString : List Char → Option (String × List Char)
  | '"' :: '"' :: '"' :: rest =>
    (readLongBasic false (skipFirstLineEnd rest)).map fun (s, after) => (String.ofList s, after)
  | '"' :: rest => (readBasic rest).map fun (s, after) => (String.ofList s, after)
  | '\'' :: '\'' :: '\'' :: rest =>
    (readLongLiteral (skipFirstLineEnd rest)).map fun (s, after) => (String.ofList s, after)
  | '\'' :: rest => (readLiteral rest).map fun (s, after) => (String.ofList s, after)
  | _ => none

/-! ### Numbers -/

/-- Reads digits after the first one; an underscore may stand between two. -/
def moreDigits (isDigit : Char → Bool) : List Char → Option (List Char × List Char)
  | '_' :: d :: rest => if isDigit d then prepend d (moreDigits isDigit rest) else none
  | ['_'] => none
  | c :: rest => if isDigit c then prepend c (moreDigits isDigit rest) else some ([], c :: rest)
  | [] => some ([], [])

/-- Reads digits. -/
def readDigits (isDigit : Char → Bool) : List Char → Option (List Char × List Char)
  | c :: rest => if isDigit c then prepend c (moreDigits isDigit rest) else none
  | [] => none

/-- Reads digits without leading zeros. -/
def readWhole : List Char → Option (List Char × List Char)
  | '0' :: rest => some (['0'], rest)
  | l => readDigits Char.isDigit l

/-- An integer, which has 64 bits. -/
def integer? (n : Int) : Option Toml :=
  if -0x8000000000000000 ≤ n ∧ n < 0x8000000000000000 then some (.integer n) else none

/-- Reads an integer in a base after its mark. -/
def readBased (base : Nat) (l : List Char) : Option (Toml × List Char) := do
  let isDigit : Char → Bool := fun c => (Text.hexValue? c).any (· < base)
  let (digits, after) ← readDigits isDigit l
  let n := digits.foldl (fun n c => n * base + (Text.hexValue? c).getD 0) 0
  return (← integer? n, after)

/-- Reads the fraction of a number. -/
def readFraction : List Char → Option (List Char × List Char)
  | '.' :: rest => readDigits Char.isDigit rest
  | l => some ([], l)

/-- Reads the exponent of a number. -/
def readExponent : List Char → Option (Option Int × List Char)
  | c :: rest =>
    if c = 'e' ∨ c = 'E' then do
      let (negative, rest) := match rest with
        | '-' :: r => (true, r)
        | '+' :: r => (false, r)
        | r => (false, r)
      let (digits, after) ← readDigits Char.isDigit rest
      let n : Int := Text.digitsValue digits
      return (some (if negative then -n else n), after)
    else some (none, c :: rest)
  | [] => some (none, [])

/-- Reads a decimal number after its sign. A positive one beyond the range of doubles is refused. -/
def readDecimal (negative : Bool) (l : List Char) : Option (Toml × List Char) := do
  let (whole, rest) ← readWhole l
  let (fraction, rest) ← readFraction rest
  let (exponent, after) ← readExponent rest
  if fraction.isEmpty ∧ exponent.isNone then
    let n : Int := Text.digitsValue whole
    return (← integer? (if negative then -n else n), after)
  else if negative ∨ JsonNumber.isFiniteDecimal (Text.digitsValue (whole ++ fraction))
      (exponent.getD 0 - fraction.length) then
    return (.float, after)
  else none

/-- Reads a number after its sign. -/
def readSigned (negative : Bool) : List Char → Option (Toml × List Char)
  | 'i' :: 'n' :: 'f' :: rest => some (.float, rest)
  | 'n' :: 'a' :: 'n' :: rest => some (.float, rest)
  | l => readDecimal negative l

/-- Reads a number. -/
def readNumber : List Char → Option (Toml × List Char)
  | '+' :: rest => readSigned false rest
  | '-' :: rest => readSigned true rest
  | '0' :: 'x' :: rest => readBased 16 rest
  | '0' :: 'o' :: rest => readBased 8 rest
  | '0' :: 'b' :: rest => readBased 2 rest
  | l => readSigned false l

/-! ### Dates and times -/

/-- Reads a number of exactly some digits within limits. -/
def readFixed (width least most : Nat) (l : List Char) : Option (Nat × List Char) :=
  let digits := l.take width
  let n := Text.digitsValue digits
  if digits.length = width ∧ digits.all Char.isDigit ∧ least ≤ n ∧ n ≤ most then
    some (n, l.drop width)
  else none

/-- Drops a mark. -/
def dropMark (mark : Char) : List Char → Option (List Char)
  | c :: rest => if c = mark then some rest else none
  | [] => none

/-- Reads a date. -/
def readDate (l : List Char) : Option (Unit × List Char) := do
  let (year, l) ← readFixed 4 0 9999 l
  let (month, l) ← readFixed 2 1 12 (← dropMark '-' l)
  let (day, l) ← readFixed 2 1 31 (← dropMark '-' l)
  if day ≤ Date.daysInMonth year month then some ((), l) else none

/-- Reads a time of day. -/
def readTime (l : List Char) : Option (Unit × List Char) := do
  let (_, l) ← readFixed 2 0 23 l
  let (_, l) ← readFixed 2 0 59 (← dropMark ':' l)
  let (_, l) ← readFixed 2 0 60 (← dropMark ':' l)
  match l with
  | '.' :: rest =>
    if (rest.takeWhile Char.isDigit).isEmpty then none
    else some ((), rest.dropWhile Char.isDigit)
  | l => some ((), l)

/-- Reads an optional offset. -/
def readOffset : List Char → Option (Unit × List Char)
  | c :: rest =>
    if c = 'Z' ∨ c = 'z' then some ((), rest)
    else if c = '+' ∨ c = '-' then do
      let (_, l) ← readFixed 2 0 23 rest
      let (_, l) ← readFixed 2 0 59 (← dropMark ':' l)
      some ((), l)
    else some ((), c :: rest)
  | [] => some ((), [])

/-- Whether a text begins with digits and then a mark. -/
def beginsWith (digits : Nat) (mark : Char) (l : List Char) : Bool :=
  (l.take digits).length == digits && (l.take digits).all Char.isDigit &&
    (l.drop digits).head? == some mark

/-- Reads a date with or without a time, or a time. Blanks after a date belong to it only if a time
follows. -/
def readMoment (l : List Char) : Option (Toml × List Char) :=
  if beginsWith 4 '-' l then do
    let ((), l) ← readDate l
    match l with
    | c :: rest =>
      if (c = 'T' ∨ c = 't' ∨ c = ' ') ∧ beginsWith 2 ':' rest then do
        let ((), l) ← readTime rest
        let ((), l) ← readOffset l
        return (.moment, l)
      else return (.moment, l)
    | [] => return (.moment, [])
  else do
    let ((), l) ← readTime l
    return (.moment, l)

/-- Reads a number, a date or a time. -/
def readNumeric (l : List Char) : Option (Toml × List Char) :=
  if beginsWith 4 '-' l ∨ beginsWith 2 ':' l then readMoment l else readNumber l

end RpkiAuthority.TomlText
