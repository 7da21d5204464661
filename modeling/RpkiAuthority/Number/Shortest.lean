import RpkiAuthority.Number.Binary64

/-!
# Shortest decimals

A double is written with the fewest decimal digits that still read back as the same double, and of
several such numbers as the nearest one. The numbers that read back make up an interval around the
double: it ends half way to the neighbours, and its ends belong to it if the mantissa is even. The
search looks at coarser grids of decimals first, at the two neighbours of the double on each.
-/

namespace RpkiAuthority

/-- The number `digits * 10 ^ exponent`. -/
structure Decimal where
  digits : Nat
  exponent : Int
  deriving DecidableEq, Repr

namespace Decimal

/-- The written form, without an exponent. -/
def text (d : Decimal) : String :=
  if 0 ≤ d.exponent then (d.digits * Nat.pow 10 d.exponent.toNat).repr
  else
    let places := (-d.exponent).toNat
    let digits := Nat.toDigits 10 d.digits
    let digits := List.replicate (places + 1 - digits.length) '0' ++ digits
    String.ofList (digits.take (digits.length - places)) ++ "." ++
      String.ofList (digits.drop (digits.length - places))

/-- A numerator and a denominator of the number in units of `2 ^ e`. -/
def inUnits (d : Decimal) (e : Int) : Nat × Nat :=
  let (n, m) := Binary64.scale 10 d.digits 1 (-d.exponent)
  Binary64.scale 2 n m e

end Decimal

namespace Binary64

/-- Whether a decimal reads back as a double. Everything is measured in quarters of the unit of the
last binary digit. Below a power of two the neighbours are half as far apart. -/
def isReadBackFrom (x : Binary64) (d : Decimal) : Bool :=
  let (n, m) := d.inUnits (x.exponent - 2)
  let low := 4 * x.mantissa - (if x.mantissa = 1 <<< 52 then 1 else 2)
  let high := 4 * x.mantissa + 2
  if x.mantissa % 2 = 0 then low * m ≤ n && n ≤ high * m else low * m < n && n < high * m

/-- The neighbour of a double on a grid of decimals that reads back, the nearer one of two. -/
def onGrid (x : Binary64) (place : Int) : Option Decimal :=
  let (n, m) := x.ratio
  let (n, m) := scale 10 n m place
  let below : Decimal := ⟨n / m, place⟩
  let above : Decimal := ⟨n / m + 1, place⟩
  match x.isReadBackFrom below, x.isReadBackFrom above with
  | true, true => some (if 2 * (n % m) ≤ m then below else above)
  | true, false => some below
  | false, true => some above
  | false, false => none

/-- The first hit on ever finer grids. -/
def search (x : Binary64) : Nat → Int → Decimal
  | 0, _ => ⟨0, 0⟩
  | steps + 1, place => (x.onGrid place).getD (x.search steps (place - 1))

/-- The shortest decimal that reads back as a double. Seventeen digits are always enough. -/
def shortest (x : Binary64) : Decimal :=
  if x.mantissa = 0 then ⟨0, 0⟩
  else
    let (n, m) := x.ratio
    let place : Int := (Nat.toDigits 10 n).length - (Nat.toDigits 10 m).length + 1
    x.search 20 place

end Binary64

end RpkiAuthority
