import RpkiAuthority.Json.Value
import RpkiAuthority.Text.Decimal
import RpkiAuthority.Text.Pieces

/-!
# Reading JSON

Reads a JSON text as RFC 8259 has it, with nothing but white space around the value. Arrays and
objects are read with a bound on the number of steps, for which the length of the text is always
enough: every step uses up a character.
-/

namespace RpkiAuthority.Json

/-- Drops white space. -/
def skip (l : List Char) : List Char :=
  l.dropWhile fun c => c == ' ' || c == '\t' || c == '\n' || c == '\r'

/-! ### Strings -/

/-- A piece of a string: a character that stands for itself or is named by a short escape, or a unit
of sixteen bits named by its number. -/
inductive Piece where
  | char (c : Char)
  | unit (n : Nat)

/-- The character named by a short escape. -/
def shortEscape? : Char → Option Char
  | '"' => some '"'
  | '\\' => some '\\'
  | '/' => some '/'
  | 'b' => some '\x08'
  | 'f' => some '\x0c'
  | 'n' => some '\n'
  | 'r' => some '\r'
  | 't' => some '\t'
  | _ => none

/-- The value of four hexadecimal digits. -/
def hexUnit? (a b c d : Char) : Option Nat := do
  return (((← Text.hexValue? a) * 16 + (← Text.hexValue? b)) * 16 + (← Text.hexValue? c)) * 16 +
    (← Text.hexValue? d)

/-- The pieces of a string up to its closing quote, and what follows; the flag tells whether there
was an escape. -/
def pieces : List Char → Option (List Piece × Bool × List Char)
  | [] => none
  | '"' :: rest => some ([], false, rest)
  | '\\' :: 'u' :: a :: b :: c :: d :: rest => do
    let n ← hexUnit? a b c d
    let (more, _, after) ← pieces rest
    return (.unit n :: more, true, after)
  | '\\' :: e :: rest => do
    let c ← shortEscape? e
    let (more, _, after) ← pieces rest
    return (.char c :: more, true, after)
  | c :: rest =>
    if c.toNat < 0x20 ∨ c = '\\' then none
    else do
      let (more, escaped, after) ← pieces rest
      return (.char c :: more, escaped, after)

/-- The characters that pieces denote. Two units that make up a surrogate pair denote one character;
a half of a pair that stands alone denotes none. -/
def denoted : List Piece → Option (List Char)
  | [] => some []
  | .char c :: rest => (denoted rest).map (c :: ·)
  | .unit n :: .unit m :: rest =>
    if 0xD800 ≤ n ∧ n < 0xDC00 then
      if 0xDC00 ≤ m ∧ m < 0xE000 then
        (denoted rest).map (Char.ofNat (0x10000 + (n - 0xD800) * 0x400 + (m - 0xDC00)) :: ·)
      else none
    else if 0xDC00 ≤ n ∧ n < 0xE000 then none
    else (denoted (.unit m :: rest)).map (Char.ofNat n :: ·)
  | .unit n :: rest =>
    if 0xD800 ≤ n ∧ n < 0xE000 then none else (denoted rest).map (Char.ofNat n :: ·)

/-- Reads a string after its opening quote. -/
def readString (l : List Char) : Option (JsonString × List Char) := do
  let (ps, escaped, after) ← pieces l
  return (⟨(denoted ps).map String.ofList, escaped⟩, after)

/-! ### Numbers -/

/-- The digits at the front of a text and what follows. -/
def spanDigits (l : List Char) : List Char × List Char :=
  (l.takeWhile Char.isDigit, l.dropWhile Char.isDigit)

/-- Reads the part of a number before its fraction: no leading zeros. -/
def readInteger (l : List Char) : Option (List Char × List Char) :=
  let (digits, rest) := spanDigits l
  if digits.isEmpty ∨ (digits.head? = some '0' ∧ digits.length ≠ 1) then none
  else some (digits, rest)

/-- Reads an optional fraction. -/
def readFraction : List Char → Option (List Char × List Char)
  | '.' :: l =>
    let (digits, rest) := spanDigits l
    if digits.isEmpty then none else some (digits, rest)
  | l => some ([], l)

/-- Reads an optional exponent. -/
def readExponent (l : List Char) : Option (Option Int × List Char) :=
  match l with
  | e :: rest =>
    if e = 'e' ∨ e = 'E' then
      let (negative, rest) := match rest with
        | '-' :: r => (true, r)
        | '+' :: r => (false, r)
        | r => (false, r)
      let (digits, after) := spanDigits rest
      if digits.isEmpty then none
      else
        let n : Int := Text.digitsValue digits
        some (some (if negative then -n else n), after)
    else some (none, l)
  | [] => some (none, l)

/-- Reads a number. -/
def readNumber (l : List Char) : Option (JsonNumber × List Char) := do
  let (negative, l) := match l with
    | '-' :: r => (true, r)
    | r => (false, r)
  let (digits, l) ← readInteger l
  let (fraction, l) ← readFraction l
  let (exponent, l) ← readExponent l
  if !negative && fraction.isEmpty && exponent.isNone then
    return (.natural (Text.digitsValue digits), l)
  else
    return (.other (Text.digitsValue (digits ++ fraction))
      (exponent.getD 0 - fraction.length), l)

/-! ### Values -/

mutual

/-- Reads a value at the front of a text. -/
def readValue : Nat → List Char → Option (JsonValue × List Char)
  | 0, _ => none
  | steps + 1, l =>
    match skip l with
    | '"' :: rest => (readString rest).map fun (s, after) => (.string s, after)
    | '[' :: rest =>
      match skip rest with
      | ']' :: after => some (.array [], after)
      | _ => (readElements steps rest).map fun (vs, after) => (.array vs, after)
    | '\x7b' :: rest =>
      match skip rest with
      | '\x7d' :: after => some (.object [], after)
      | _ => (readMembers steps rest).map fun (ms, after) => (.object ms, after)
    | c :: rest =>
      match Text.dropBeginning? "null".toList (c :: rest) with
      | some after => some (.null, after)
      | none =>
        match Text.dropBeginning? "true".toList (c :: rest) with
        | some after => some (.bool true, after)
        | none =>
          match Text.dropBeginning? "false".toList (c :: rest) with
          | some after => some (.bool false, after)
          | none => (readNumber (c :: rest)).map fun (n, after) => (.number n, after)
    | [] => none

/-- Reads the elements of an array up to its closing bracket. -/
def readElements : Nat → List Char → Option (List JsonValue × List Char)
  | 0, _ => none
  | steps + 1, l => do
    let (v, l) ← readValue steps l
    match skip l with
    | ',' :: rest =>
      let (more, after) ← readElements steps rest
      return (v :: more, after)
    | ']' :: after => return ([v], after)
    | _ => none

/-- Reads the members of an object up to its closing brace. -/
def readMembers : Nat → List Char → Option (List (JsonString × JsonValue) × List Char)
  | 0, _ => none
  | steps + 1, l => do
    match skip l with
    | '"' :: rest =>
      let (k, l) ← readString rest
      match skip l with
      | ':' :: rest =>
        let (v, l) ← readValue steps rest
        match skip l with
        | ',' :: rest =>
          let (more, after) ← readMembers steps rest
          return ((k, v) :: more, after)
        | '\x7d' :: after => return ([(k, v)], after)
        | _ => none
      | _ => none
    | _ => none

end

/-- Reads a whole JSON text. -/
def parse (s : String) : Option JsonValue := do
  let l := s.toList
  let (v, after) ← readValue (l.length + 1) l
  if (skip after).isEmpty then some v else none

end RpkiAuthority.Json
