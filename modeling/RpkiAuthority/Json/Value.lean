/-!
# JSON values

A JSON value as it was written: members of objects keep their order and their repetitions, integers
their exact value, and a string remembers whether escapes were used in it. An escape can name half
of a surrogate pair; such a string denotes no text, which only matters to a reader that looks at it.
-/

namespace RpkiAuthority

/-- A string of a JSON text. -/
structure JsonString where
  /-- The text denoted, missing if an escape names half of a surrogate pair. -/
  value : Option String
  /-- Whether an escape was used in writing it. -/
  escaped : Bool
  deriving DecidableEq, Repr

/-- The string that denotes a text. -/
def JsonString.of (s : String) : JsonString := ⟨some s, false⟩

/-- A number of a JSON text. -/
inductive JsonNumber where
  /-- Digits without a sign, fraction or exponent. -/
  | natural (n : Nat)
  /-- Any other number, by the magnitude `mantissa * 10 ^ exponent`. -/
  | other (mantissa : Nat) (exponent : Int)
  deriving DecidableEq, Repr

namespace JsonNumber

/-- The least magnitude that is rounded to infinity as a double: half a unit in the last place above
the largest finite one. -/
def overflow : Nat := (1 <<< 1024) - (1 <<< 970)

/-- Whether `mantissa * 10 ^ exponent` is below the magnitudes that overflow a double. Numbers of
more than 310 digits do, and those of less than 309 do not. -/
def isFiniteDecimal (mantissa : Nat) (exponent : Int) : Bool :=
  let digits := (Nat.toDigits 10 mantissa).length + exponent
  if mantissa = 0 ∨ digits < 309 then true
  else if 310 < digits then false
  else if 0 ≤ exponent then mantissa * Nat.pow 10 exponent.toNat < overflow
  else mantissa < overflow * Nat.pow 10 (-exponent).toNat

/-- Whether the number is in the range of doubles. -/
def isFinite : JsonNumber → Bool
  | natural n => isFiniteDecimal n 0
  | other m e => isFiniteDecimal m e

end JsonNumber

/-- A JSON value. -/
inductive JsonValue where
  | null
  | bool (b : Bool)
  | number (n : JsonNumber)
  | string (s : JsonString)
  | array (elements : List JsonValue)
  | object (members : List (JsonString × JsonValue))
  deriving Repr

namespace JsonValue

/-- The string that denotes a text. -/
def text (s : String) : JsonValue := .string (.of s)

/-- A natural number. -/
def nat (n : Nat) : JsonValue := .number (.natural n)

/-- An object with the given members. -/
def record (members : List (String × JsonValue)) : JsonValue :=
  .object (members.map fun m => (.of m.1, m.2))

/-- Whether the value can be kept as it is before it is known what it stands for: every string
denotes a text, every number is in the range of doubles, and arrays and objects are nested at most
`depth` deep. -/
def isPlain (depth : Nat) : JsonValue → Bool
  | .null => true
  | .bool _ => true
  | .number n => n.isFinite
  | .string s => s.value.isSome
  | .array elements => 0 < depth && all (depth - 1) elements
  | .object members => 0 < depth && allMembers (depth - 1) members
where
  all (depth : Nat) : List JsonValue → Bool
    | [] => true
    | v :: rest => v.isPlain depth && all depth rest
  allMembers (depth : Nat) : List (JsonString × JsonValue) → Bool
    | [] => true
    | (k, v) :: rest => k.value.isSome && v.isPlain depth && allMembers depth rest

end JsonValue

end RpkiAuthority
