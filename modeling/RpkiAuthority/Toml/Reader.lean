import RpkiAuthority.Toml.Scalar

/-!
# Reading TOML documents

A document is read line by line; each line is a header, a key with a value, a comment or empty.
Arrays and inline tables are nested less than eighty deep, and a key has less than eighty parts.
-/

namespace RpkiAuthority.TomlText

/-- The depth that nesting stays below. -/
def depthLimit : Nat := 80

/-! ### Keys -/

/-- Whether a character may stand in a key without quotes. -/
def isBare (c : Char) : Bool := c.isAlphanum || c == '_' || c == '-'

/-- Reads one part of a key. -/
def readPart : List Char → Option (String × List Char)
  | '"' :: rest => (readBasic rest).map fun (s, after) => (String.ofList s, after)
  | '\'' :: rest => (readLiteral rest).map fun (s, after) => (String.ofList s, after)
  | l =>
    let part := l.takeWhile isBare
    if part.isEmpty then none else some (String.ofList part, l.dropWhile isBare)

/-- Reads the parts of a key, at most as many as given. -/
def readParts : Nat → List Char → Option (List String × List Char)
  | 0, _ => none
  | most + 1, l => do
    let (part, l) ← readPart l
    match skipGap l with
    | '.' :: rest =>
      let (parts, after) ← readParts most (skipGap rest)
      return (part :: parts, after)
    | _ => return ([part], l)

/-- Reads a key: the path and the last part. -/
def readKey (l : List Char) : Option ((List String × String) × List Char) := do
  let (parts, after) ← readParts (depthLimit - 1) l
  return ((parts.dropLast, ← parts.getLast?), after)

/-! ### Values -/

/-- Drops blanks, comments and line ends. -/
def skipLines : Nat → List Char → List Char
  | 0, l => l
  | steps + 1, l =>
    let l := skipComment (skipGap l)
    match afterLineEnd? l with
    | some rest => skipLines steps rest
    | none => l

mutual

/-- Reads a value. Every step uses up a character, and every nested one takes a step of the
depth. -/
def readValue : Nat → Nat → List Char → Option (Toml × List Char)
  | 0, _, _ => none
  | steps + 1, depth, l =>
    match l with
    | '"' :: _ | '\'' :: _ => (readString l).map fun (s, after) => (.string s, after)
    | '[' :: rest =>
      match depth with
      | 0 => none
      | depth + 1 =>
        (readElements steps depth rest).map fun (vs, after) => (.array vs, after)
    | '\x7b' :: rest =>
      match depth with
      | 0 => none
      | depth + 1 =>
        match skipGap rest with
        | '\x7d' :: after => some (.table .inline [], after)
        | _ => (readPairs steps depth [] rest).map fun (ms, after) => (.table .inline ms, after)
    | 't' :: 'r' :: 'u' :: 'e' :: rest => some (.bool true, rest)
    | 'f' :: 'a' :: 'l' :: 's' :: 'e' :: rest => some (.bool false, rest)
    | _ => readNumeric l

/-- Reads the elements of an array up to its closing bracket. -/
def readElements : Nat → Nat → List Char → Option (List Toml × List Char)
  | 0, _, _ => none
  | steps + 1, depth, l =>
    match skipLines l.length l with
    | ']' :: after => some ([], after)
    | l => do
      let (v, l) ← readValue steps depth l
      match skipLines l.length l with
      | ',' :: rest =>
        let (vs, after) ← readElements steps depth rest
        return (v :: vs, after)
      | ']' :: after => return ([v], after)
      | _ => none

/-- Reads the members of an inline table up to its closing brace. -/
def readPairs : Nat → Nat → TomlMembers → List Char → Option (TomlMembers × List Char)
  | 0, _, _, _ => none
  | steps + 1, depth, ms, l => do
    let ((path, k), l) ← readKey (skipGap l)
    let l ← dropMark '=' (skipGap l)
    let (v, l) ← readValue steps depth (skipGap l)
    let ms ← ms.addMember path k v
    match skipGap l with
    | ',' :: rest => readPairs steps depth ms rest
    | '\x7d' :: after => return (ms, after)
    | _ => none

end

/-! ### Lines -/

/-- The text after the rest of a line, which may be a comment. -/
def afterLine? (l : List Char) : Option (List Char) :=
  match skipComment (skipGap l) with
  | [] => some []
  | l => afterLineEnd? l

/-- A line of a document. -/
inductive Line where
  /-- Nothing, or a comment. -/
  | blank
  | header (path : List String) (k : String)
  | element (path : List String) (k : String)
  | member (path : List String) (k : String) (v : Toml)

/-- Reads a line without its end. -/
def readLine (l : List Char) : Option (Line × List Char) :=
  match skipGap l with
  | [] => some (.blank, [])
  | '#' :: rest => some (.blank, '#' :: rest)
  | '\n' :: rest => some (.blank, '\n' :: rest)
  | '\r' :: rest => some (.blank, '\r' :: rest)
  | '[' :: '[' :: rest => do
    let ((path, k), l) ← readKey (skipGap rest)
    match skipGap l with
    | ']' :: ']' :: after => return (.element path k, after)
    | _ => none
  | '[' :: rest => do
    let ((path, k), l) ← readKey (skipGap rest)
    let after ← dropMark ']' (skipGap l)
    return (.header path k, after)
  | l => do
    let ((path, k), l) ← readKey l
    let l ← dropMark '=' (skipGap l)
    let (v, after) ← readValue (l.length + 1) (depthLimit - 1) (skipGap l)
    return (.member path k v, after)

/-- The document after a line, and the path of the table that further members belong to. -/
def addLine (here : List String) (ms : TomlMembers) :
    Line → Option (List String × TomlMembers)
  | .blank => some (here, ms)
  | .header path k => do return (path ++ [k], ← ms.startTable path k)
  | .element path k => do return (path ++ [k], ← ms.startElement path k)
  | .member path k v => do
    return (here, ← ms.within false (fun _ ms => ms.addMember path k v) here false)

/-- Reads the lines of a document. Every line uses up a character. -/
def readLines : Nat → List String → TomlMembers → List Char → Option TomlMembers
  | 0, _, ms, l => if l.isEmpty then some ms else none
  | steps + 1, here, ms, l => do
    if l.isEmpty then return ms
    let (line, l) ← readLine l
    let (here, ms) ← addLine here ms line
    readLines steps here ms (← afterLine? l)

/-- Reads a document. A byte order mark at its beginning is dropped. -/
def read (s : String) : Option TomlMembers :=
  let l := match s.toList with
    | '\ufeff' :: rest => rest
    | l => l
  readLines l.length [] [] l

end RpkiAuthority.TomlText
