/-!
# White space

The characters with the Unicode property `White_Space`, trimming, and splitting into words. All
text this library reads is trimmed and split by this one property, so a no-break space separates
words and a zero width space does not.
-/

namespace RpkiAuthority.Text

/-- The characters with the Unicode property `White_Space`, as ranges of code points. -/
def blankRanges : List (Nat × Nat) :=
  [(0x09, 0x0D), (0x20, 0x20), (0x85, 0x85), (0xA0, 0xA0), (0x1680, 0x1680), (0x2000, 0x200A),
   (0x2028, 0x2029), (0x202F, 0x202F), (0x205F, 0x205F), (0x3000, 0x3000)]

/-- Whether a character is white space. -/
def isBlank (c : Char) : Bool :=
  blankRanges.any fun r => r.1 ≤ c.toNat && c.toNat ≤ r.2

/-- Drops white space at both ends. -/
def trimmed (l : List Char) : List Char :=
  ((l.dropWhile isBlank).reverse.dropWhile isBlank).reverse

/-- Drops white space at both ends. -/
def trim (s : String) : String := String.ofList (trimmed s.toList)

/-- The pieces between the characters that satisfy a condition; empty pieces are kept, so there is
always one piece more than there are separators. -/
def piecesBy (p : Char → Bool) : List Char → List (List Char)
  | [] => [[]]
  | c :: rest =>
    if p c then [] :: piecesBy p rest
    else
      match piecesBy p rest with
      | [] => [[c]]
      | piece :: more => (c :: piece) :: more

/-- The maximal runs of characters that are not white space. -/
def words (l : List Char) : List (List Char) :=
  (piecesBy isBlank l).filter fun w => !w.isEmpty

end RpkiAuthority.Text
