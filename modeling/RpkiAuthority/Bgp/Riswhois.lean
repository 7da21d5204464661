import RpkiAuthority.Bgp.Route

/-!
# RISwhois data

The route collectors publish lines of three columns: origin AS number, prefix, and the number of
peers that see the route. Empty lines and lines that start with a percent sign are comments. A line
that does not read, such as one with a set of AS numbers in braces for its origin, is skipped.
Further columns are not looked at.
-/

namespace RpkiAuthority.Riswhois

/-- What is wrong with data as a whole. -/
inductive DataError where
  /-- A line is not in UTF-8. -/
  | notUtf8
  deriving DecidableEq, Repr

/-- The wording of the error. -/
def DataError.message : DataError → String
  | notUtf8 => "stream did not contain valid UTF-8"

/-- Reads the columns of a line; there is no entry if one does not read. -/
def readColumns (origin pfx peers : List Char) : Reading DataError (Option RisEntry) :=
  if origin.contains '\x7b' then .ok none
  else
    match Asn.read (Text.trimmed origin) with
    | .error .aborted => .error .aborted
    | .error (.refused _) => .ok none
    | .ok origin => .ok do
      RisEntry.make? origin (← Prefix.readExact (Text.trimmed pfx))
        (← Text.readNat Text.max32 peers)

/-- Reads a line; there is no entry on a comment and on a line that does not read. -/
def readLine (line : List Char) : Reading DataError (Option RisEntry) :=
  let line := Text.trimmed line
  if line.isEmpty ∨ line.head? = some '%' then .ok none
  else
    match Text.words line with
    | origin :: pfx :: peers :: _ => readColumns origin pfx peers
    | _ => .ok none

/-- The entries of a text, in the order of its lines. -/
def read (data : String) : Reading DataError (List RisEntry) := do
  return (← (Text.piecesAt '\n' data.toList).mapM readLine).filterMap id

/-- The bytes between line feeds. -/
def byteLines : List UInt8 → List (List UInt8)
  | [] => [[]]
  | b :: rest =>
    if b = 10 then [] :: byteLines rest
    else
      match byteLines rest with
      | [] => [[b]]
      | line :: more => (b :: line) :: more

/-- Reads a line given as bytes. -/
def readByteLine (line : List UInt8) : Reading DataError (Option RisEntry) :=
  match String.fromUTF8? line.toByteArray with
  | some s => readLine s.toList
  | none => .error (.refused .notUtf8)

/-- The entries of data given as bytes. A line that is not in UTF-8 makes all of it unreadable. -/
def readBytes (data : List UInt8) : Reading DataError (List RisEntry) := do
  return (← (byteLines data).mapM readByteLine).filterMap id

end RpkiAuthority.Riswhois
