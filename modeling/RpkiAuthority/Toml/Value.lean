/-!
# TOML values

A TOML document is a table. Besides its members a table keeps how it came about, because that
decides what later lines may add to it: a table with a header of its own takes no second header, a
table made by dotted keys takes only dotted keys, a table that was only named on the way to another
one may still get its header, and an inline table is complete.

Numbers with a fraction or exponent, dates and times are told apart from everything else but not
valued.
-/

namespace RpkiAuthority

/-- How a table came about. -/
inductive TomlOrigin where
  /-- By a header. -/
  | header
  /-- On the way to a longer header. -/
  | implied
  /-- By dotted keys. -/
  | dotted
  /-- As a value in braces. -/
  | inline
  deriving DecidableEq, Repr

/-- A TOML value. -/
inductive Toml where
  | string (s : String)
  | integer (n : Int)
  | bool (b : Bool)
  | float
  | moment
  | array (elements : List Toml)
  | table (origin : TomlOrigin) (members : List (String × Toml))
  /-- The tables with the same header in double brackets. -/
  | tables (elements : List (List (String × Toml)))

/-- The members of a table in the order in which they were added. -/
abbrev TomlMembers := List (String × Toml)

namespace TomlMembers

/-- The value of a member. -/
def find? (ms : TomlMembers) (k : String) : Option Toml :=
  (List.find? (fun m => m.1 == k) ms).map Prod.snd

/-- Replaces the value of a member. -/
def replace (ms : TomlMembers) (k : String) (v : Toml) : TomlMembers :=
  ms.map fun m => if m.1 = k then (k, v) else m

/-- Lets a change take place in the table that a path leads to. Tables that are not there yet are
added; `dotted` tells whether the path was written as a dotted key or as a header. A path goes
through the last of several tables with the same header, and a dotted key does not go through a
table that has a header. The change is told whether the table was made by dotted keys. -/
def within (dotted : Bool) (change : Bool → TomlMembers → Option TomlMembers) :
    List String → Bool → TomlMembers → Option TomlMembers
  | [], made, ms => change made ms
  | k :: path, _, ms =>
    match ms.find? k with
    | none => do
      let inner ← within dotted change path dotted []
      return ms ++ [(k, .table (if dotted then .dotted else .implied) inner)]
    | some (.table origin inner) => do
      if origin = .inline ∨ (dotted ∧ origin = .header) then none
      let inner ← within dotted change path (origin == .dotted) inner
      return ms.replace k (.table origin inner)
    | some (.tables elements) => do
      let inner ← within dotted change path false (elements.getLast?.getD [])
      return ms.replace k (.tables (elements.dropLast ++ [inner]))
    | some _ => none

/-- Adds a member at the end of a dotted key, of which `path` is all but the last part. A table
takes dotted keys either always or never. -/
def addMember (path : List String) (k : String) (v : Toml) (ms : TomlMembers) :
    Option TomlMembers :=
  within true
    (fun made ms =>
      if made = path.isEmpty then none
      else if (ms.find? k).isSome then none
      else some (ms ++ [(k, v)]))
    path false ms

/-- Starts the table of a header. -/
def startTable (path : List String) (k : String) (ms : TomlMembers) : Option TomlMembers :=
  within false
    (fun _ ms =>
      match ms.find? k with
      | none => some (ms ++ [(k, .table .header [])])
      | some (.table .implied inner) => some (ms.replace k (.table .header inner))
      | some _ => none)
    path false ms

/-- Starts another table of a header in double brackets. -/
def startElement (path : List String) (k : String) (ms : TomlMembers) : Option TomlMembers :=
  within false
    (fun _ ms =>
      match ms.find? k with
      | none => some (ms ++ [(k, .tables [[]])])
      | some (.tables elements) => some (ms.replace k (.tables (elements ++ [[]])))
      | some _ => none)
    path false ms

end TomlMembers

end RpkiAuthority
