import Mathlib.Order.Defs.Unbundled
import RpkiAuthority.Bgp.Route
import RpkiAuthority.Proofs.Resource.Notation

/-!
# The order of prefixes and of routes

Prefixes ascend by family, then by first address, then by length; routes ascend by prefix, then by
AS number. The two orders tell all values apart, so they are strict and total, and what compares as
equal is equal (`isStrictTotalOrder_compare`).

Both go from a prefix to its more specific ones (`Prefix.MoreSpecific.compare_eq_lt`). These start
no earlier, and those that start at the same address are longer. It takes no case for either family:
the first addresses of both are numbers of 128 bits, and lengths count from the first of these.
-/

namespace RpkiAuthority

/-- **An order that tells all values apart** is strict and total. -/
theorem isStrictTotalOrder_compare {α : Type} [Ord α] [Std.TransOrd α] [Std.LawfulEqOrd α] :
    IsStrictTotalOrder α fun a b => compare a b = .lt where
  trichotomous a b hab hba := by
    refine Std.LawfulEqOrd.eq_of_compare ?_
    cases h : compare a b with
    | eq => rfl
    | lt => exact absurd h hab
    | gt => exact absurd (Std.OrientedCmp.lt_of_gt h) hba
  irrefl a h := by
    rw [Std.ReflOrd.compare_self] at h
    exact nomatch h
  trans a b c := Std.TransCmp.lt_trans

namespace Prefix

variable {p q : Prefix}

/-- **The more specific prefixes** of a prefix are the others of its family that have no further
addresses. -/
structure MoreSpecific (q p : Prefix) : Prop where
  family_eq : q.family = p.family
  ne : q ≠ p
  subset : ∀ n ∈ q.block, n ∈ p.block

/-- **A prefix comes before its more specific ones.** -/
theorem MoreSpecific.compare_eq_lt (h : q.MoreSpecific p) : compare p q = .lt := by
  obtain ⟨hlen, haddr⟩ := subset_iff.mp h.subset
  rw [compare_eq, h.family_eq, Std.ReflOrd.compare_self, Ordering.eq_then]
  rcases Nat.lt_or_eq_of_le (mem_block.mp haddr).1 with hlt | heq
  · rw [Nat.compare_eq_lt.mpr hlt, Ordering.lt_then]
  · -- with the same length as well it would be the same prefix
    have hlonger : p.len < q.len := Nat.lt_of_le_of_ne hlen fun hsame =>
      h.ne (eq_of_mem h.family_eq hsame.symm q.addr_mem_block haddr)
    rw [heq, Std.ReflOrd.compare_self, Ordering.eq_then, Nat.compare_eq_lt.mpr hlonger]

end Prefix

/-- Routes for a prefix come before those for its more specific ones, whoever announces them. -/
theorem AnnouncedRoute.compare_of_moreSpecific {r t : AnnouncedRoute}
    (h : t.pfx.MoreSpecific r.pfx) : compare r t = .lt := by
  rw [compare_eq, h.compare_eq_lt, Ordering.lt_then]

open Text in
/-- **The notation and the order of prefixes.** A text is accepted if, without the white space
around it, it is an address, a slash and a length that the family has, with no further bits set;
what is read is the prefix of that address and length. To read the address on its own and to compare
it with the first one of the prefix comes to the same. Every prefix is read back from its written
form and, if it is an IPv6 prefix, from each form with a dotted part. The orders of prefixes and of
routes are strict and total, agree with equality, and go from each prefix to its more specific
ones. -/
theorem Prefix.written_and_ordered :
    ((∀ s p, parse s = .ok p ↔ Denotes (trimmed s.toList) p.family p.addr p.len) ∧
      (∀ s p, parse s = .ok p ↔ readCompared (trimmed s.toList) = some p) ∧
      ∀ s, (∃ p, parse s = .ok p) ↔ ∃ f addr len, Denotes (trimmed s.toList) f addr len) ∧
    ((∀ p, parse p.text = .ok p) ∧ ∀ p s, p.Spelling s → parse s = .ok p) ∧
    (IsStrictTotalOrder Prefix (fun p q => compare p q = .lt) ∧
      (∀ p q : Prefix, compare p q = .eq ↔ p = q) ∧
      ∀ p q : Prefix, q.MoreSpecific p → compare p q = .lt) ∧
    IsStrictTotalOrder AnnouncedRoute (fun r t => compare r t = .lt) ∧
      (∀ r t : AnnouncedRoute, compare r t = .eq ↔ r = t) ∧
      (∀ r t : AnnouncedRoute,
        compare r t = (compare r.pfx t.pfx).then (compare r.asn.toNat t.asn.toNat)) ∧
      ∀ r t : AnnouncedRoute, t.pfx.MoreSpecific r.pfx → compare r t = .lt := by
  have haccepted : ∀ s, (∃ p, parse s = .ok p) ↔
      ∃ f addr len, Denotes (trimmed s.toList) f addr len := by
    intro s
    constructor
    · rintro ⟨p, hp⟩
      exact ⟨p.family, p.addr, p.len, parse_eq_ok_iff.mp hp⟩
    · rintro ⟨f, addr, len, h⟩
      obtain ⟨p, rfl, rfl, rfl⟩ := h.exists_prefix
      exact ⟨p, parse_eq_ok_iff.mpr h⟩
  have hcompared : ∀ s p, parse s = .ok p ↔ readCompared (trimmed s.toList) = some p := by
    intro s p
    rw [readCompared_eq, readExact_eq_some_iff, parse_eq_ok_iff]
  exact ⟨⟨fun s p => parse_eq_ok_iff, hcompared, haccepted⟩, ⟨parse_text, fun p s h => h.parse⟩,
    ⟨isStrictTotalOrder_compare, fun p q => Std.LawfulEqOrd.compare_eq_iff_eq,
      fun p q h => h.compare_eq_lt⟩,
    isStrictTotalOrder_compare, fun r t => Std.LawfulEqOrd.compare_eq_iff_eq,
    AnnouncedRoute.compare_eq, fun r t h => AnnouncedRoute.compare_of_moreSpecific h⟩

end RpkiAuthority
