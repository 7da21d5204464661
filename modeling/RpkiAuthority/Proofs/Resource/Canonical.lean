import RpkiAuthority.Proofs.Resource.Read
import RpkiAuthority.Proofs.Resource.Walks

/-!
# Sets in normal form are sets

A resource set is three lists of blocks, and its operations are walks along them. This file says
what they mean for single **resources** (`Resource`): an AS number, or an address of one of the
families.

The sets it speaks of are the **canonical** ones (`ResourceSet.Canonical`): each list is in normal
form, no AS number has more than 32 bits, and blocks of addresses start and end with whole addresses
of their family. For them the lists are no more than a way of writing down which resources are in
the set:

* the operations are those of sets, and give canonical sets again (`ResourceSet.mem_intersection`,
  `ResourceSet.mem_difference`, `ResourceSet.contains_iff`);
* **two sets with the same resources are equal** (`ResourceSet.Canonical.ext`).

The laws of sets follow without another look at the walks (`ResourceSet.Canonical.set_algebra`).
-/

namespace RpkiAuthority

open Address

/-! ### Addresses in whole ranges -/

/-- The number is that of an address of the family: no bit is set beyond the bits of the family. -/
def Family.IsAddress (f : Family) (n : Nat) : Prop := n < space ∧ n % blockSize f.bits = 0

namespace Family

variable {f : Family} {b : Block} {n : Nat}

instance (f : Family) (n : Nat) : Decidable (f.IsAddress n) := inferInstanceAs (Decidable (_ ∧ _))

instance (f : Family) (b : Block) : Decidable (f.Whole b) :=
  decidable_of_iff
    (b.min % blockSize f.bits = 0 ∧ (b.max + 1) % blockSize f.bits = 0 ∧ b.max < space)
    ⟨fun h => ⟨h.1, h.2.1, h.2.2⟩, fun h => ⟨h.start, h.finish, h.lt_space⟩⟩

/-- The address of the family that a number is part of. -/
def addressOf (f : Family) (n : Nat) : Nat := n / blockSize f.bits * blockSize f.bits

theorem isAddress_addressOf (h : n < space) : f.IsAddress (f.addressOf n) :=
  ⟨Nat.lt_of_le_of_lt (Nat.div_mul_le_self n _) h, Nat.mul_mod_left _ _⟩

/-- **A whole range cuts no address in two.** -/
theorem Whole.addressOf_mem_iff (h : f.Whole b) : f.addressOf n ∈ b ↔ n ∈ b := by
  have hpos := blockSize_pos f.bits
  obtain ⟨i, hi⟩ := Nat.dvd_of_mod_eq_zero h.start
  obtain ⟨j, hj⟩ := Nat.dvd_of_mod_eq_zero h.finish
  have hstart : b.min ≤ f.addressOf n ↔ b.min ≤ n := by
    rw [hi, addressOf, Nat.mul_comm, Nat.mul_le_mul_right_iff hpos, Nat.le_div_iff_mul_le hpos]
  have hend : f.addressOf n < b.max + 1 ↔ n < b.max + 1 := by
    rw [hj, addressOf, Nat.mul_comm (blockSize f.bits) j, Nat.mul_lt_mul_right hpos,
      Nat.div_lt_iff_lt_mul hpos]
  rw [Block.mem_iff, Block.mem_iff, hstart]
  exact and_congr_right fun _ => by omega

theorem Whole.holds_addressOf {l : List Block} (h : ∀ b ∈ l, f.Whole b) :
    Block.Holds l (f.addressOf n) ↔ Block.Holds l n :=
  exists_congr fun b => and_congr_right fun hb => (h b hb).addressOf_mem_iff

end Family

namespace Block

variable {f : Family} {l r : List Block}

/-- What is left of a whole block before another one is whole. -/
theorem whole_before {s o : Block} (hs : f.Whole s) (ho : f.Whole o) (hlt : s.min < o.min)
    (hle : o.min ≤ s.max) : f.Whole ⟨s.min, o.min - 1⟩ where
  start := hs.start
  finish := by
    show (o.min - 1 + 1) % _ = 0
    rw [Nat.sub_add_cancel (Nat.one_le_of_lt hlt)]
    exact ho.start
  lt_space := Nat.lt_of_le_of_lt (Nat.le_trans (Nat.sub_le _ _) hle) hs.lt_space

/-- What is left of a whole block behind another one is whole. -/
theorem whole_behind {s o : Block} (hs : f.Whole s) (ho : f.Whole o) :
    f.Whole ⟨o.max + 1, s.max⟩ :=
  ⟨ho.finish, hs.finish, hs.lt_space⟩

/-- What is left of whole blocks is whole. -/
theorem whole_of_mem_difference (hl : ∀ b ∈ l, f.Whole b) (hr : ∀ b ∈ r, f.Whole b) :
    ∀ b ∈ difference l r, f.Whole b := by
  fun_induction difference l r with
  | case1 => exact fun b hb => absurd hb List.not_mem_nil
  | case2 s ss ih =>
    obtain ⟨hs, hss⟩ := List.forall_mem_cons.mp hl
    exact List.forall_mem_cons.mpr ⟨hs, ih hss hr⟩
  | case3 s ss o os hlt hend ih =>
    obtain ⟨hs, hss⟩ := List.forall_mem_cons.mp hl
    exact List.forall_mem_cons.mpr ⟨hs, ih hss hr⟩
  | case4 s ss o os hlt hend hend' ih | case5 s ss o os hlt hend hend' hend'' ih =>
    obtain ⟨hs, hss⟩ := List.forall_mem_cons.mp hl
    obtain ⟨ho, -⟩ := List.forall_mem_cons.mp hr
    exact List.forall_mem_cons.mpr ⟨whole_before hs ho hlt (by omega), ih hss hr⟩
  | case6 s ss o os hlt hend hend' hend'' heq ih =>
    obtain ⟨hs, hss⟩ := List.forall_mem_cons.mp hl
    obtain ⟨ho, hos⟩ := List.forall_mem_cons.mp hr
    exact List.forall_mem_cons.mpr ⟨whole_before hs ho hlt (by omega), ih hss hos⟩
  | case7 s ss o os hlt hend hend' hend'' hne ih =>
    obtain ⟨hs, hss⟩ := List.forall_mem_cons.mp hl
    obtain ⟨ho, hos⟩ := List.forall_mem_cons.mp hr
    refine List.forall_mem_cons.mpr ⟨whole_before hs ho hlt (by omega), ih ?_ hos⟩
    exact List.forall_mem_cons.mpr ⟨whole_behind hs ho, hss⟩
  | case8 s ss o os hge hstart hend ih => exact ih (List.forall_mem_cons.mp hl).2 hr
  | case9 s ss o os hge hstart hend heq ih | case11 s ss o os hge hstart heq hone ih =>
    exact ih (List.forall_mem_cons.mp hl).2 (List.forall_mem_cons.mp hr).2
  | case10 s ss o os hge hstart hend hne ih | case12 s ss o os hge hstart heq hne ih =>
    obtain ⟨hs, hss⟩ := List.forall_mem_cons.mp hl
    obtain ⟨ho, hos⟩ := List.forall_mem_cons.mp hr
    exact ih (List.forall_mem_cons.mpr ⟨whole_behind hs ho, hss⟩) hos
  | case13 s ss o os hge hstart hne ih => exact ih hl (List.forall_mem_cons.mp hr).2

end Block

/-! ### Resources -/

/-- A single resource: an AS number, or an address of a family as a number of 128 bits. -/
inductive Resource where
  | asn (a : Asn)
  | address (f : Family) (n : Nat) (h : f.IsAddress n)

namespace ResourceSet

variable {s t : ResourceSet} {n : Nat}

/-- A resource is in a set if one of the blocks of its kind holds it. -/
instance : Membership Resource ResourceSet where
  mem s
    | .asn a => s.HoldsAsn a
    | .address f n _ => s.HoldsAddress f n

theorem mem_address {f : Family} {h : f.IsAddress n} :
    Resource.address f n h ∈ s ↔ Block.Holds (s.addresses f) n :=
  Iff.rfl

/-- **Sets in normal form are determined by the numbers** in their lists. -/
theorem Normal.ext (hs : s.Normal) (ht : t.Normal)
    (hasns : ∀ n, Block.Holds s.asns n ↔ Block.Holds t.asns n)
    (haddresses : ∀ f n, Block.Holds (s.addresses f) n ↔ Block.Holds (t.addresses f) n) :
    s = t := by
  have hlist : s.asns = t.asns := hs.1.ext ht.1 hasns
  have hv4 : s.ipv4 = t.ipv4 := hs.2.1.ext ht.2.1 (haddresses .ipv4)
  have hv6 : s.ipv6 = t.ipv6 := hs.2.2.ext ht.2.2 (haddresses .ipv6)
  cases s; cases t
  simp_all

/-- **Canonical sets**: lists in normal form, of AS numbers of 32 bits and of whole addresses. -/
structure Canonical (s : ResourceSet) : Prop where
  normal : s.Normal
  whole : s.Whole
  asns_lt : ∀ b ∈ s.asns, b.max < 1 <<< 32

instance (l : List Block) : Decidable (Block.Normal l) :=
  inferInstanceAs (Decidable (_ ∧ _))

instance (s : ResourceSet) : Decidable s.Normal := inferInstanceAs (Decidable (_ ∧ _ ∧ _))

instance (s : ResourceSet) : Decidable s.Whole := decidable_of_iff _ whole_iff.symm

instance (s : ResourceSet) : Decidable s.Canonical :=
  decidable_of_iff (s.Normal ∧ s.Whole ∧ ∀ b ∈ s.asns, b.max < 1 <<< 32)
    ⟨fun h => ⟨h.1, h.2.1, h.2.2⟩, fun h => ⟨h.normal, h.whole, h.asns_lt⟩⟩

namespace Canonical

/-- The AS numbers of a canonical set have 32 bits. -/
theorem asn_lt (h : s.Canonical) (hn : Block.Holds s.asns n) : n < 1 <<< 32 := by
  obtain ⟨b, hb, hbn⟩ := hn
  exact Nat.lt_of_le_of_lt hbn.2 (h.asns_lt b hb)

/-- The addresses of a canonical set have 128 bits. -/
theorem address_lt (h : s.Canonical) {f : Family} (hn : Block.Holds (s.addresses f) n) :
    n < space := by
  obtain ⟨b, hb, hbn⟩ := hn
  exact Nat.lt_of_le_of_lt hbn.2 (h.whole f b hb).lt_space

/-- **To compare two sets** it is enough to look at their resources: none of their lists holds any
other numbers than these. -/
theorem subset_iff (hs : s.Canonical) (ht : t.Canonical) :
    (∀ x : Resource, x ∈ s → x ∈ t) ↔
      (∀ n, Block.Holds s.asns n → Block.Holds t.asns n) ∧
        ∀ f n, Block.Holds (s.addresses f) n → Block.Holds (t.addresses f) n := by
  refine ⟨fun h => ⟨fun n hn => ?_, fun f n hn => ?_⟩, fun h x hx => ?_⟩
  · exact h (.asn ⟨n, hs.asn_lt hn⟩) hn
  · have haddress := Family.isAddress_addressOf (f := f) (hs.address_lt hn)
    have hmem := h (.address f (f.addressOf n) haddress)
      ((Family.Whole.holds_addressOf (hs.whole f)).mpr hn)
    exact (Family.Whole.holds_addressOf (ht.whole f)).mp hmem
  · cases x with
    | asn a => exact h.1 a.toNat hx
    | address f n hn => exact h.2 f n hx

/-- **Canonical sets with the same resources are equal.** -/
theorem ext (hs : s.Canonical) (ht : t.Canonical) (h : ∀ x : Resource, x ∈ s ↔ x ∈ t) : s = t := by
  obtain ⟨hasns, haddresses⟩ := (subset_iff hs ht).mp fun x => (h x).mp
  obtain ⟨hasns', haddresses'⟩ := (subset_iff ht hs).mp fun x => (h x).mpr
  exact hs.normal.ext ht.normal (fun n => ⟨hasns n, hasns' n⟩)
    fun f n => ⟨haddresses f n, haddresses' f n⟩

end Canonical

/-! ### The operations -/

theorem addresses_intersection (s t : ResourceSet) (f : Family) :
    (s.intersection t).addresses f = Block.intersection (s.addresses f) (t.addresses f) := by
  cases f <;> rfl

theorem addresses_difference (s t : ResourceSet) (f : Family) :
    (s.difference t).addresses f = Block.difference (s.addresses f) (t.addresses f) := by
  cases f <;> rfl

/-- **The intersection has the resources of both sets.** -/
theorem mem_intersection (hs : s.Normal) (ht : t.Normal) (x : Resource) :
    x ∈ s.intersection t ↔ x ∈ s ∧ x ∈ t := by
  cases x with
  | asn a => exact Block.holds_intersection hs.1 ht.1
  | address f n h =>
    rw [mem_address, addresses_intersection]
    exact Block.holds_intersection (hs.addresses f) (ht.addresses f)

/-- **The difference has the resources of the first set that are not in the second.** -/
theorem mem_difference (hs : s.Normal) (ht : t.Normal) (x : Resource) :
    x ∈ s.difference t ↔ x ∈ s ∧ x ∉ t := by
  cases x with
  | asn a => exact Block.holds_difference hs.1 ht.1.ordered ht.1.ascending
  | address f n h =>
    rw [mem_address, addresses_difference]
    exact Block.holds_difference (hs.addresses f) (ht.addresses f).ordered
      (ht.addresses f).ascending

theorem Normal.difference (hs : s.Normal) (ht : t.Normal) : (s.difference t).Normal :=
  ⟨Block.normal_difference hs.1 ht.1.ordered ht.1.ascending,
    Block.normal_difference hs.2.1 ht.2.1.ordered ht.2.1.ascending,
    Block.normal_difference hs.2.2 ht.2.2.ordered ht.2.2.ascending⟩

/-- The bound on AS numbers passes to a list in normal form that holds no others. -/
theorem Canonical.max_lt (hs : s.Canonical) {l : List Block} (hl : Block.Normal l)
    (h : ∀ n, Block.Holds l n → Block.Holds s.asns n) : ∀ b ∈ l, b.max < 1 <<< 32 :=
  fun _ hb => hs.asn_lt (h _ (hl.holds_max hb))

theorem Canonical.intersection (hs : s.Canonical) (ht : t.Canonical) :
    (s.intersection t).Canonical where
  normal := ⟨Block.normal_intersection hs.normal.1 ht.normal.1,
    Block.normal_intersection hs.normal.2.1 ht.normal.2.1,
    Block.normal_intersection hs.normal.2.2 ht.normal.2.2⟩
  whole := hs.whole.intersection ht.whole
  asns_lt := hs.max_lt (Block.normal_intersection hs.normal.1 ht.normal.1) fun _ hn =>
    ((Block.holds_intersection hs.normal.1 ht.normal.1).mp hn).1

theorem Canonical.difference (hs : s.Canonical) (ht : t.Canonical) :
    (s.difference t).Canonical where
  normal := hs.normal.difference ht.normal
  whole f b hb := Block.whole_of_mem_difference (hs.whole f) (ht.whole f) b
    (addresses_difference s t f ▸ hb)
  asns_lt := hs.max_lt (hs.normal.difference ht.normal).1 fun _ hn =>
    ((Block.holds_difference hs.normal.1 ht.normal.1.ordered ht.normal.1.ascending).mp hn).1

/-- **Containment is inclusion.** -/
theorem contains_iff (hs : s.Canonical) (ht : t.Canonical) :
    s.contains t = true ↔ ∀ x : Resource, x ∈ t → x ∈ s := by
  have hwalk : ∀ {l r : List Block}, Block.Normal l → Block.Normal r →
      (Block.covered l r = true ↔ ∀ n, Block.Holds l n → Block.Holds r n) :=
    fun hl hr => Block.covered_iff hl.ordered hl.ascending hr
  rw [Canonical.subset_iff ht hs, contains, Bool.and_eq_true, Bool.and_eq_true,
    hwalk ht.normal.1 hs.normal.1, hwalk ht.normal.2.1 hs.normal.2.1,
    hwalk ht.normal.2.2 hs.normal.2.2, and_assoc]
  refine and_congr_right fun _ => ⟨fun h f => ?_, fun h => ⟨h .ipv4, h .ipv6⟩⟩
  cases f with
  | ipv4 => exact h.1
  | ipv6 => exact h.2

/-- A canonical set without resources has no blocks. -/
theorem isEmpty_iff (hs : s.Canonical) : s.isEmpty = true ↔ ∀ x : Resource, x ∉ s := by
  have hempty : empty.Canonical := by decide
  have hnone : ∀ x : Resource, x ∉ empty := by
    intro x hx
    cases x with
    | asn a => exact Block.not_holds_nil _ hx
    | address f n h => cases f <;> exact Block.not_holds_nil _ hx
  have hiff : s.isEmpty = true ↔ s = empty := by
    cases s
    simp [isEmpty, empty, and_assoc]
  rw [hiff]
  exact ⟨fun h => h ▸ hnone, fun h => hs.ext hempty fun x => iff_of_false (h x) (hnone x)⟩

/-- **The laws of sets** hold for canonical sets: intersection and difference are those of the
resources, containment is inclusion, equality is having the same resources, and the three go
together. -/
theorem Canonical.set_algebra (hs : s.Canonical) (ht : t.Canonical) :
    ((s.intersection t).Canonical ∧ ∀ x : Resource, x ∈ s.intersection t ↔ x ∈ s ∧ x ∈ t) ∧
      ((s.difference t).Canonical ∧ ∀ x : Resource, x ∈ s.difference t ↔ x ∈ s ∧ x ∉ t) ∧
      (s.contains t = true ↔ ∀ x : Resource, x ∈ t → x ∈ s) ∧
      (s = t ↔ ∀ x : Resource, x ∈ s ↔ x ∈ t) ∧
      ((s.difference t).isEmpty = true ↔ t.contains s = true) ∧
      s.intersection t = s.difference (s.difference t) := by
  have hleft := hs.difference ht
  refine ⟨⟨hs.intersection ht, mem_intersection hs.normal ht.normal⟩,
    ⟨hleft, mem_difference hs.normal ht.normal⟩, contains_iff hs ht,
    ⟨fun h => h ▸ fun _ => Iff.rfl, hs.ext ht⟩, ?_, ?_⟩
  · rw [isEmpty_iff hleft, contains_iff ht hs]
    refine forall_congr' fun x => ?_
    rw [mem_difference hs.normal ht.normal, not_and, Classical.not_not]
  · refine (hs.intersection ht).ext (hs.difference hleft) fun x => ?_
    rw [mem_intersection hs.normal ht.normal, mem_difference hs.normal hleft.normal,
      mem_difference hs.normal ht.normal]
    refine and_congr_right fun hx => ?_
    rw [not_and, Classical.not_not]
    exact ⟨fun h _ => h, fun h => h hx⟩

/-- The resources for private use lose the lower AS numbers, the middle one of three prefixes and
the lower half of the IPv6 addresses. -/
theorem Canonical.set_algebra_privateUse :
    privateUse.Canonical ∧ ∃ t : ResourceSet, t.Canonical ∧
      privateUse.intersection t = privateUse.difference (privateUse.difference t) ∧
      privateUse.difference t =
        ⟨[⟨4200000001, 4294967294⟩],
          [⟨0x0a000000 <<< 96, (0x0b000000 <<< 96) - 1⟩,
            ⟨0xc0a80000 <<< 96, (0xc0a90000 <<< 96) - 1⟩],
          [⟨0xfd00 <<< 112, (0xfe00 <<< 112) - 1⟩]⟩ := by
  have hs : privateUse.Canonical := by decide
  let t : ResourceSet := ⟨[⟨0, 4200000000⟩], [⟨0xac100000 <<< 96, (0xac200000 <<< 96) - 1⟩],
    [⟨0, (0xfd00 <<< 112) - 1⟩]⟩
  have ht : t.Canonical := by decide
  exact ⟨hs, t, ht, (hs.set_algebra ht).2.2.2.2.2, by cbv⟩

end ResourceSet

end RpkiAuthority
