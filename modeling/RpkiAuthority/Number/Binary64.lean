/-!
# Doubles

Positive numbers of 53 binary digits. A ratio of natural numbers is rounded to the nearest of them,
and to the even one of two that are equally near. The range of exponents is not limited: numbers
come from counts of nanoseconds and seconds, far from both of its ends.
-/

namespace RpkiAuthority

/-- The number `mantissa * 2 ^ exponent`. -/
structure Binary64 where
  mantissa : Nat
  exponent : Int
  deriving DecidableEq, Repr

namespace Binary64

/-- The number zero. -/
def zero : Binary64 := ⟨0, 0⟩

/-- A numerator and a denominator of `num / den / base ^ e`. -/
def scale (base num den : Nat) (e : Int) : Nat × Nat :=
  if 0 ≤ e then (num, den * Nat.pow base e.toNat) else (num * Nat.pow base (-e).toNat, den)

/-- The natural number nearest to a ratio, the even one of two. -/
def roundRatio (num den : Nat) : Nat :=
  let q := num / den
  let twice := 2 * (num % den)
  if twice < den ∨ (twice = den ∧ q % 2 = 0) then q else q + 1

/-- The double nearest to a ratio. -/
def nearest (num den : Nat) : Binary64 :=
  if num = 0 then zero
  else
    let e : Int := (Nat.log2 num : Int) - Nat.log2 den - 53
    let (n, d) := scale 2 num den e
    let e := if d <<< 53 ≤ n then e + 1 else e
    let (n, d) := scale 2 num den e
    let m := roundRatio n d
    if m = 1 <<< 53 then ⟨1 <<< 52, e + 1⟩ else ⟨m, e⟩

/-- A numerator and a denominator. -/
def ratio (x : Binary64) : Nat × Nat := scale 2 x.mantissa 1 (-x.exponent)

/-- The double nearest to a natural number. -/
def ofNat (n : Nat) : Binary64 := nearest n 1

/-- The double nearest to a sum. -/
def add (x y : Binary64) : Binary64 :=
  let (a, b) := x.ratio
  let (c, d) := y.ratio
  nearest (a * d + c * b) (b * d)

end Binary64

end RpkiAuthority
