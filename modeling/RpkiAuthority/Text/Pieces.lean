import RpkiAuthority.Text.Blank

/-!
# Cutting text and putting it together

Splitting at a character or at a separator of several characters, cutting at the first occurrence,
the lines of a text, and joining with a separator. Everything works on lists of characters and is
structurally recursive.
-/

namespace RpkiAuthority.Text

/-- The pieces between occurrences of a character. -/
def piecesAt (sep : Char) : List Char → List (List Char) := piecesBy (· == sep)

/-- The texts before and after the first occurrence of a character. -/
def cutAt (sep : Char) : List Char → Option (List Char × List Char)
  | [] => none
  | c :: rest =>
    if c = sep then some ([], rest)
    else (cutAt sep rest).map fun (before, after) => (c :: before, after)

/-- What is left of a text after a given beginning. -/
def dropBeginning? : List Char → List Char → Option (List Char)
  | [], l => some l
  | _ :: _, [] => none
  | b :: beginning, c :: rest => if b = c then dropBeginning? beginning rest else none

/-- What is left of a text before a given ending. -/
def dropEnding? (ending l : List Char) : Option (List Char) :=
  (dropBeginning? ending.reverse l.reverse).map List.reverse

/-- The pieces between occurrences of a two character separator, found from the left. -/
def piecesAtPair (a b : Char) : List Char → List (List Char)
  | [] => [[]]
  | [c] => [[c]]
  | c :: d :: rest =>
    if c = a ∧ d = b then [] :: piecesAtPair a b rest
    else
      match piecesAtPair a b (d :: rest) with
      | [] => [[c]]
      | piece :: more => (c :: piece) :: more

/-- A line without the carriage return that may end it. -/
def dropCarriageReturn (line : List Char) : List Char :=
  (dropEnding? ['\r'] line).getD line

/-- The lines of a text: each ends at a line feed, which is dropped together with a carriage
return before it. The empty piece after a final line feed is not a line, and what stands after the
last line feed keeps its carriage return. -/
def lines (l : List Char) : List (List Char) :=
  go (piecesAt '\n' l)
where
  go : List (List Char) → List (List Char)
    | [] => []
    | [last] => if last.isEmpty then [] else [last]
    | line :: more => dropCarriageReturn line :: go more

/-- Puts texts together with a separator between neighbours. -/
def join (sep : String) : List String → String
  | [] => ""
  | [s] => s
  | s :: more => s ++ sep ++ join sep more

end RpkiAuthority.Text
