/-!
# Orders by a key

A type whose values are told apart by a list of numbers is ordered by comparing these lists from
the left. The two facts an ordered map asks of its keys then come from lists of numbers.
-/

namespace RpkiAuthority

/-- Comparing by a key that tells all values apart finds only equal values equal. -/
theorem lawfulEqCmp_compareOn {α β : Type} [Ord β] [Std.LawfulEqOrd β] {key : α → β}
    (distinct : ∀ a b, key a = key b → a = b) : Std.LawfulEqCmp (compareOn key) where
  compare_self {a} := Std.ReflOrd.compare_self (a := key a)
  eq_of_compare h := distinct _ _ (Std.LawfulEqOrd.eq_of_compare h)

end RpkiAuthority
