import RpkiAuthority.Collection.KeyOrder
import RpkiAuthority.Text.Decimal
import RpkiAuthority.Text.Reading
import RpkiAuthority.Text.Blank

/-!
# AS numbers

An AS number has 32 bits. It is written with the letters `AS` before it and read with or without
them, in any case.
-/

namespace RpkiAuthority

/-- An autonomous system number. -/
structure Asn where
  toNat : Nat
  isLt : toNat < 1 <<< 32
  deriving DecidableEq

namespace Asn

instance : Ord Asn := ⟨compareOn Asn.toNat⟩

instance : Std.TransOrd Asn := inferInstanceAs (Std.TransCmp (compareOn Asn.toNat))

instance : Std.LawfulEqOrd Asn :=
  lawfulEqCmp_compareOn fun a b h => by cases a; cases b; simp_all

/-- The AS number of a natural number of at most 32 bits. -/
def ofNat? (n : Nat) : Option Asn :=
  if h : n < 1 <<< 32 then some ⟨n, h⟩ else none

/-- The written form. -/
def text (a : Asn) : String := "AS" ++ a.toNat.repr

/-- Reads the digits of an AS number. -/
def ofDigits? (l : List Char) : Option Asn := (Text.readNat Text.max32 l).bind ofNat?

/-- Drops the letters `AS`, in any case, from a text of more than two bytes. The letters are looked
for in the first two bytes, so reading breaks off where these end inside a character. -/
def dropLetters (l : List Char) : Reading Unit (List Char) :=
  if (String.ofList l).utf8ByteSize ≤ 2 then .ok l
  else
    match l with
    | c :: d :: rest =>
      if c.utf8Size = 1 then
        if d.utf8Size = 1 then
          if c.toLower = 'a' ∧ d.toLower = 's' then .ok rest else .ok l
        else .error .aborted
      else if c.utf8Size = 2 then .ok l
      else .error .aborted
    | _ => .error .aborted

/-- Reads an AS number with nothing around it. -/
def read (l : List Char) : Reading Unit Asn := do
  Reading.ofOption () (ofDigits? (← dropLetters l))

end Asn

end RpkiAuthority
