import RpkiAuthority.Json.Value
import RpkiAuthority.Text.Decimal

/-!
# Writing JSON

A value is written without white space. In a string the quote, the backslash and the control
characters are escaped, by a letter where there is one and by their number otherwise, and nothing
else is.

What is read from the text is the value that was written, but for one thing: the strings that have
such characters now have escapes (`JsonValue.reread`).
-/

namespace RpkiAuthority

namespace Json

/-- Whether a character is escaped in a string. -/
def isEscaped (c : Char) : Bool := c == '"' || c == '\\' || c.toNat < 0x20

/-- The letter that a character is escaped by. -/
def escapeLetter? : Char → Option Char
  | '"' => some '"'
  | '\\' => some '\\'
  | '\x08' => some 'b'
  | '\x0c' => some 'f'
  | '\n' => some 'n'
  | '\r' => some 'r'
  | '\t' => some 't'
  | _ => none

/-- The text of a character in a string. -/
def charText (c : Char) : List Char :=
  if isEscaped c then
    match escapeLetter? c with
    | some e => ['\\', e]
    | none => '\\' :: 'u' :: (Text.hexPadded 4 c.toNat).toList
  else [c]

/-- The text of a string, with its quotes. -/
def stringText (s : String) : List Char := '"' :: (s.toList.flatMap charText ++ ['"'])

/-- The text of an exponent. -/
def exponentText : Int → List Char
  | .ofNat n => Nat.toDigits 10 n
  | .negSucc n => '-' :: Nat.toDigits 10 (n + 1)

/-- The text of a number. -/
def numberText : JsonNumber → List Char
  | .natural n => Nat.toDigits 10 n
  | .other mantissa exponent => Nat.toDigits 10 mantissa ++ 'e' :: exponentText exponent

end Json

namespace JsonString

/-- The text that a string is written for; a string that denotes none is written as the empty
one. -/
def written (s : JsonString) : String := s.value.getD ""

/-- The string as it is found in a text that was written. -/
def reread (s : JsonString) : JsonString := ⟨some s.written, s.written.toList.any Json.isEscaped⟩

end JsonString

namespace Json

mutual

/-- The text of a value. -/
def valueText : JsonValue → List Char
  | .null => "null".toList
  | .bool true => "true".toList
  | .bool false => "false".toList
  | .number n => numberText n
  | .string s => stringText s.written
  | .array elements => '[' :: elementsText elements
  | .object members => '\x7b' :: membersText members

/-- The text of the elements of an array, with its closing bracket. -/
def elementsText : List JsonValue → List Char
  | [] => [']']
  | [v] => valueText v ++ [']']
  | v :: rest => valueText v ++ ',' :: elementsText rest

/-- The text of the members of an object, with its closing brace. -/
def membersText : List (JsonString × JsonValue) → List Char
  | [] => ['\x7d']
  | [(k, v)] => stringText k.written ++ ':' :: (valueText v ++ ['\x7d'])
  | (k, v) :: rest => stringText k.written ++ ':' :: (valueText v ++ ',' :: membersText rest)

end

/-- The JSON text of a value. -/
def write (v : JsonValue) : String := String.ofList (valueText v)

end Json

namespace JsonValue

/-- The value as it is found in the text that was written for it. -/
def reread : JsonValue → JsonValue
  | .string s => .string s.reread
  | .array elements => .array (all elements)
  | .object members => .object (allMembers members)
  | .null => .null
  | .bool b => .bool b
  | .number n => .number n
where
  all : List JsonValue → List JsonValue
    | [] => []
    | v :: rest => v.reread :: all rest
  allMembers : List (JsonString × JsonValue) → List (JsonString × JsonValue)
    | [] => []
    | (k, v) :: rest => (k.reread, v.reread) :: allMembers rest

end JsonValue

end RpkiAuthority
