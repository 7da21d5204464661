import Mathlib.Algebra.Order.BigOperators.Group.Finset
import RpkiAuthority.Proofs.Resource.Canonical

/-!
# No list of prefixes for a set is shorter

The prefixes of a set in normal form are found block by block from the left, and each is the largest
one that fits (`ResourceSet.len_le_of_mem_prefixes`). Three things follow.

* They **ascend without a common address**, within a block because each piece starts right behind
  the one before it (`Prefix.isChain_decompose`), and from block to block because blocks do.
* Every prefix whose addresses are all in the set lies in one of them, and so in only one
  (`ResourceSet.exists_unique_prefix`).
* So whatever prefixes make up the set, each of them lies in one piece and each piece needs one of
  its own: **no list of prefixes is shorter** (`ResourceSet.length_prefixes_le`).

Taking a block apart comes to its end after few steps, wherever the block ends. Of three pieces of
one length the middle one could have been joined with one of its neighbours, so there are at most
two of each length (`Prefix.length_decompose_le`). No step looks for an address behind the last one
of all (`Prefix.takenApart`).
-/

namespace RpkiAuthority

open Address

namespace Prefix

variable {f : Family} {first last : Nat} {p q r : Prefix}

/-! ### One piece after the other -/

/-- The first piece of a range starts where the range starts. -/
theorem addr_of_mem_head?_decompose (h : f.Whole ⟨first, last⟩)
    (hp : p ∈ (decompose f first last).head?) : p.addr = first := by
  rw [decompose] at hp
  split at hp
  · next hle =>
    obtain rfl := Option.some.inj hp
    exact (isFirstPiece_containing h hle).1.addr_eq
  · exact nomatch hp

/-- **Each piece starts right behind the one before it.** -/
theorem isChain_decompose (h : f.Whole ⟨first, last⟩) :
    (decompose f first last).IsChain fun p q => p.last + 1 = q.addr := by
  fun_induction decompose f first last with
  | case1 first hle len ih =>
    obtain ⟨hpiece, hlen⟩ := isFirstPiece_containing h hle
    have hrest := whole_rest h (fittingLength_spec h hle).1
    refine List.isChain_cons.mpr ⟨fun q hq => ?_, ih hrest⟩
    rw [addr_of_mem_head?_decompose hrest hq, last_add_one, hpiece.addr_eq, hlen]
  | case2 first hgt => exact .nil

/-- **The last piece ends where the range ends**, also if that is the last address of all. -/
theorem exists_getLast?_decompose (h : f.Whole ⟨first, last⟩) (hle : first ≤ last) :
    ∃ p, (decompose f first last).getLast? = some p ∧ p.last = last := by
  fun_induction decompose f first last with
  | case1 first hle len ih =>
    obtain ⟨hpiece, hlen⟩ := isFirstPiece_containing h hle
    have hrest := whole_rest h (fittingLength_spec h hle).1
    have hend : (containing f first len).last + 1 = first + blockSize len := by
      rw [last_add_one, hpiece.addr_eq, hlen]
    rcases Nat.lt_or_ge last (first + blockSize len) with hlt | hmore
    · -- nothing is left behind the piece
      have hnil : decompose f (first + blockSize len) last = [] := by
        rw [decompose, if_neg (Nat.not_le.mpr hlt)]
      rw [hnil]
      exact ⟨containing f first len, rfl, Nat.le_antisymm hpiece.last_le (by omega)⟩
    · obtain ⟨p, hp, hlast⟩ := ih hrest hmore
      exact ⟨p, by rw [List.getLast?_cons, hp]; rfl, hlast⟩
  | case2 first hgt => exact absurd hle hgt

/-- The pieces ascend, and no two of them have an address in common. -/
theorem pairwise_decompose (h : f.Whole ⟨first, last⟩) :
    (decompose f first last).Pairwise fun p q => p.last < q.addr := by
  fun_induction decompose f first last with
  | case1 first hle len ih =>
    obtain ⟨hpiece, hlen⟩ := isFirstPiece_containing h hle
    have hrest : f.Whole ⟨first + blockSize len, last⟩ := whole_rest h (fittingLength_spec h hle).1
    refine List.pairwise_cons.mpr ⟨fun q hq => ?_, ih hrest⟩
    have hbehind := (bounds_of_mem_decompose hrest hq q.addr_mem_block).1
    have hend : (containing f first len).last + 1 = first + blockSize len := by
      rw [last_add_one, hpiece.addr_eq, hlen]
    omega
  | case2 first hgt => exact .nil

theorem nodup_of_pairwise {l : List Prefix} (h : l.Pairwise fun p q => p.last < q.addr) :
    l.Nodup := by
  refine h.imp fun {p q} hlt heq => ?_
  have hle := q.addr_le_last
  rw [heq] at hlt
  omega

/-! ### How many pieces there are -/

/-- A prefix that is not the whole space is half of one that is one bit shorter. -/
theorem exists_double (hlen : 0 < q.len) :
    ∃ d : Prefix, d.family = q.family ∧ d.len < q.len ∧
      d.addr ≤ q.addr ∧ q.addr + blockSize q.len ≤ d.addr + 2 * blockSize q.len ∧
      d.last + 1 = d.addr + 2 * blockSize q.len := by
  have hbits := q.len_le
  have hd : (containing q.family q.addr (q.len - 1)).len = q.len - 1 := Nat.min_eq_left (by omega)
  have hfrom : q.addr ∈ (containing q.family q.addr (q.len - 1)).block := mem_containing q.addr_lt
  have hto := nested (q := containing q.family q.addr (q.len - 1)) (by omega) q.addr_mem_block
    hfrom q.last_mem_block
  have hsize : blockSize (q.len - 1) = 2 * blockSize q.len := by
    have hle := Nat.le_trans hbits q.family.bits_le
    rw [blockSize_eq, blockSize_eq, ← Nat.pow_succ']
    congr 1
    omega
  have hend := last_add_one q
  have hlast := last_add_one (containing q.family q.addr (q.len - 1))
  rw [hd, hsize] at hlast
  refine ⟨containing q.family q.addr (q.len - 1), rfl, by omega, hfrom.1, ?_, hlast⟩
  have hle : q.last ≤ (containing q.family q.addr (q.len - 1)).last := hto.2
  omega

/-- **Of three pieces of one length** the middle one and a neighbour would make up a larger
prefix. -/
theorem not_three_of_length (h : f.Whole ⟨first, last⟩) (hp : p ∈ decompose f first last)
    (hq : q ∈ decompose f first last) (hr : r ∈ decompose f first last) (hpq : p.last < q.addr)
    (hqr : q.last < r.addr) (hplen : p.len = q.len) (hrlen : r.len = q.len) : False := by
  have hstart := (bounds_of_mem_decompose h hp p.addr_mem_block).1
  have hfinish := (bounds_of_mem_decompose h hr r.last_mem_block).2
  have hpend := last_add_one p
  have hqend := last_add_one q
  have hrend := last_add_one r
  rw [hplen] at hpend
  rw [hrlen] at hrend
  have hpos : 0 < q.len := by
    refine Nat.pos_of_ne_zero fun hzero => ?_
    -- a prefix of length zero leaves no room for another one
    have hsize : blockSize q.len = space := by rw [hzero]; rfl
    have hspace := q.last_lt
    omega
  obtain ⟨d, hfamily, hlen, haddr, hhalf, hlast⟩ := exists_double hpos
  -- the larger prefix reaches no further than the two neighbours
  have hin : ∀ m ∈ d.block, first ≤ m ∧ m ≤ last := by
    rintro m ⟨hfrom, hto⟩
    have hfrom : d.addr ≤ m := hfrom
    have hto : m ≤ d.last := hto
    omega
  have hmem : q.addr ∈ d.block := by
    refine ⟨haddr, ?_⟩
    show q.addr ≤ d.last
    have hsize := blockSize_pos q.len
    omega
  have hle := len_le_of_mem_decompose h hq (hfamily.trans (family_of_mem_decompose hq)) hin
    q.addr_mem_block hmem
  exact absurd hle (Nat.not_le.mpr hlen)

/-- Of each length there are at most two pieces. -/
theorem length_filter_decompose_le (h : f.Whole ⟨first, last⟩) (len : Nat) :
    ((decompose f first last).filter fun p => p.len = len).length ≤ 2 := by
  have hpairwise := (pairwise_decompose h).filter fun p => decide (p.len = len)
  have hmem : ∀ p ∈ (decompose f first last).filter fun p => p.len = len,
      p ∈ decompose f first last ∧ p.len = len := fun p hp => by simpa using hp
  generalize (decompose f first last).filter (fun p => p.len = len) = pieces at hpairwise hmem ⊢
  match pieces with
  | [] | [_] | [_, _] => simp
  | p :: q :: r :: _ =>
    obtain ⟨hfirst, hmore⟩ := List.pairwise_cons.mp hpairwise
    have hqr := (List.pairwise_cons.mp hmore).1 r List.mem_cons_self
    have hpq := hfirst q List.mem_cons_self
    obtain ⟨hp, hplen⟩ := hmem p (by simp)
    obtain ⟨hq, hqlen⟩ := hmem q (by simp)
    obtain ⟨hr, hrlen⟩ := hmem r (by simp)
    exact (not_three_of_length h hp hq hr hpq hqr (hplen.trans hqlen.symm)
      (hrlen.trans hqlen.symm)).elim

/-- **A range has few pieces**: two for each length at most. -/
theorem length_decompose_le (h : f.Whole ⟨first, last⟩) :
    (decompose f first last).length ≤ 2 * (f.bits + 1) := by
  have hnodup := nodup_of_pairwise (pairwise_decompose h)
  have htwo : ∀ len ∈ Finset.range (f.bits + 1),
      ((decompose f first last).toFinset.filter fun p => p.len = len).card ≤ 2 := by
    intro len _
    have hcard := List.toFinset_card_le ((decompose f first last).filter fun p => p.len = len)
    rw [List.toFinset_filter] at hcard
    simpa using hcard.trans (length_filter_decompose_le h len)
  have hlen : ∀ p ∈ (decompose f first last).toFinset, p.len ∈ Finset.range (f.bits + 1) := by
    intro p hp
    have hfamily := family_of_mem_decompose (List.mem_toFinset.mp hp)
    exact Finset.mem_range.mpr (Nat.lt_succ_of_le (hfamily ▸ p.len_le))
  have hcard := Finset.card_le_mul_card_image_of_maps_to hlen 2 htwo
  rwa [Finset.card_range, List.toFinset_card_of_nodup hnodup] at hcard

/-- **How a block is taken apart**: from its start to its end, each piece right behind the one
before it, in few steps. No step goes on behind the last piece, whose last address may be the last
of all. -/
structure TakenApart (f : Family) (b : Block) : Prop where
  starts : ∃ p, (decompose f b.min b.max).head? = some p ∧ p.addr = b.min
  goesOn : (decompose f b.min b.max).IsChain fun p q => p.last + 1 = q.addr
  ends : ∃ p, (decompose f b.min b.max).getLast? = some p ∧ p.last = b.max
  length_le : (decompose f b.min b.max).length ≤ 2 * (f.bits + 1)

/-- **Taking a block apart comes to its end.** -/
theorem takenApart {b : Block} (h : f.Whole b) (hle : b.min ≤ b.max) : TakenApart f b where
  starts := by
    obtain ⟨p, hp, -⟩ := exists_getLast?_decompose h hle
    have hne : decompose f b.min b.max ≠ [] := fun hnil => by rw [hnil] at hp; exact nomatch hp
    obtain ⟨q, hq⟩ := Option.isSome_iff_exists.mp (List.isSome_head?.mpr hne)
    exact ⟨q, hq, addr_of_mem_head?_decompose h hq⟩
  goesOn := isChain_decompose h
  ends := exists_getLast?_decompose h hle
  length_le := length_decompose_le h

end Prefix

/-! ### The prefixes of a set -/

namespace ResourceSet

variable {s : ResourceSet} {f : Family} {p q : Prefix} {n : Nat}

/-- **The prefixes of a set ascend**, and no two of them have an address in common. -/
theorem pairwise_prefixes (hs : s.Normal) (hw : s.Whole) :
    (s.prefixes f).Pairwise fun p q => p.last < q.addr := by
  refine List.pairwise_flatMap.mpr ⟨fun b hb => Prefix.pairwise_decompose (hw f b hb), ?_⟩
  refine (hs.addresses f).2.imp_of_mem fun {b c} hb hc hlt p hp q hq => ?_
  have hend := (Prefix.bounds_of_mem_decompose (hw f b hb) hp p.last_mem_block).2
  have hstart := (Prefix.bounds_of_mem_decompose (hw f c hc) hq q.addr_mem_block).1
  omega

/-- The prefixes of a set have the addresses of the set. -/
theorem exists_mem_prefixes_iff (hw : s.Whole) :
    (∃ p ∈ s.prefixes f, n ∈ p.block) ↔ s.HoldsAddress f n :=
  ⟨fun ⟨_, hp, hn⟩ => holdsAddress_of_mem_prefixes hw hp hn, exists_mem_prefixes hw⟩

theorem includes_of_mem_prefixes (hw : s.Whole) (hp : p ∈ s.prefixes f) : s.Includes p :=
  fun _ hn => family_of_mem_prefixes hp ▸ holdsAddress_of_mem_prefixes hw hp hn

/-- Only one of the prefixes of a set has an address. -/
theorem eq_of_mem_prefixes (hs : s.Normal) (hw : s.Whole) (hp : p ∈ s.prefixes f)
    (hq : q ∈ s.prefixes f) (hpn : n ∈ p.block) (hqn : n ∈ q.block) : p = q := by
  have hfp := family_of_mem_prefixes hp
  have hfq := family_of_mem_prefixes hq
  have hle := len_le_of_mem_prefixes hs hw hp hfq (includes_of_mem_prefixes hw hq) hpn hqn
  have hge := len_le_of_mem_prefixes hs hw hq hfp (includes_of_mem_prefixes hw hp) hqn hpn
  exact Prefix.eq_of_mem (hfp.trans hfq.symm) (Nat.le_antisymm hle hge) hpn hqn

/-- A prefix in the set lies in each of the prefixes of the set that it shares an address with. -/
theorem subset_of_mem_prefixes (hs : s.Normal) (hw : s.Whole) (hp : p ∈ s.prefixes f)
    (hq : q.family = f) (hin : s.Includes q) (hpn : n ∈ p.block) (hqn : n ∈ q.block) :
    ∀ m ∈ q.block, m ∈ p.block := fun _ hm =>
  Prefix.nested (len_le_of_mem_prefixes hs hw hp hq hin hpn hqn) hqn hpn hm

/-- **Every prefix in the set lies in exactly one** of the prefixes of the set. -/
theorem exists_unique_prefix (hs : s.Normal) (hw : s.Whole) (hq : q.family = f)
    (hin : s.Includes q) : ∃! p, p ∈ s.prefixes f ∧ ∀ n ∈ q.block, n ∈ p.block := by
  obtain ⟨p, hp, haddr⟩ := exists_mem_prefixes hw (hq ▸ hin q.addr q.addr_mem_block)
  refine ⟨p, ⟨hp, subset_of_mem_prefixes hs hw hp hq hin haddr q.addr_mem_block⟩, ?_⟩
  rintro r ⟨hr, hrin⟩
  exact eq_of_mem_prefixes hs hw hr hp (hrin q.addr q.addr_mem_block) haddr

/-- **No list of prefixes for the set is shorter.** Each of its prefixes lies in one of those of the
set, and each of these needs one of its own for its first address. -/
theorem length_prefixes_le (hs : s.Normal) (hw : s.Whole) {l : List Prefix}
    (hfamily : ∀ q ∈ l, q.family = f) (hl : ∀ n, (∃ q ∈ l, n ∈ q.block) ↔ s.HoldsAddress f n) :
    (s.prefixes f).length ≤ l.length := by
  have hcharge : ∀ p : Prefix, ∃ q : Prefix, p ∈ s.prefixes f → q ∈ l ∧ p.addr ∈ q.block := by
    intro p
    by_cases hp : p ∈ s.prefixes f
    · obtain ⟨q, hq⟩ := (hl p.addr).mpr (holdsAddress_of_mem_prefixes hw hp p.addr_mem_block)
      exact ⟨q, fun _ => hq⟩
    · exact ⟨p, fun hp' => absurd hp' hp⟩
  choose charge hcharge using hcharge
  have hincludes : ∀ q ∈ l, s.Includes q := fun q hq n hn =>
    hfamily q hq ▸ (hl n).mp ⟨q, hq, hn⟩
  have hinjective : ∀ p ∈ s.prefixes f, ∀ q ∈ s.prefixes f, charge p = charge q → p = q := by
    intro p hp q hq heq
    obtain ⟨hmem, hpaddr⟩ := hcharge p hp
    obtain ⟨-, hqaddr⟩ := hcharge q hq
    rw [← heq] at hqaddr
    -- the prefix that both are charged to lies in either of them
    have hin := subset_of_mem_prefixes hs hw hp (hfamily _ hmem) (hincludes _ hmem)
      p.addr_mem_block hpaddr
    exact eq_of_mem_prefixes hs hw hp hq (hin q.addr hqaddr) q.addr_mem_block
  have hnodup : (s.prefixes f).Nodup := Prefix.nodup_of_pairwise (pairwise_prefixes hs hw)
  have hsubset : (s.prefixes f).map charge ⊆ l := by
    intro q hq
    obtain ⟨p, hp, rfl⟩ := List.mem_map.mp hq
    exact (hcharge p hp).1
  have hlength := (List.subperm_of_subset (hnodup.map_on hinjective) hsubset).length_le
  rwa [List.length_map] at hlength

/-- **The prefixes of a set in normal form.** They ascend without a common address, and have exactly
the addresses of the set. Every prefix in the set lies in exactly one of them, so no list of
prefixes for the set is shorter. Each block is taken apart in few steps, and the last of these ends
where the block ends, also if that is the last address of all. Every set that is read is whole, from
one list or from three (`ResourceSet.whole_of_read`, `ResourceSet.whole_of_readSeparate`). -/
theorem prefixes_minimal (hs : s.Normal) (hw : s.Whole) (f : Family) :
    (s.prefixes f).Pairwise (fun p q => p.last < q.addr) ∧
    (∀ p ∈ s.prefixes f, p.family = f) ∧
    (∀ n, (∃ p ∈ s.prefixes f, n ∈ p.block) ↔ s.HoldsAddress f n) ∧
    (∀ q : Prefix, q.family = f → s.Includes q →
      ∃! p, p ∈ s.prefixes f ∧ ∀ n ∈ q.block, n ∈ p.block) ∧
    (∀ l : List Prefix, (∀ q ∈ l, q.family = f) →
      (∀ n, (∃ q ∈ l, n ∈ q.block) ↔ s.HoldsAddress f n) → (s.prefixes f).length ≤ l.length) ∧
    ∀ b ∈ s.addresses f, Prefix.TakenApart f b := by
  refine ⟨pairwise_prefixes hs hw, fun _ => family_of_mem_prefixes,
    fun n => exists_mem_prefixes_iff hw, fun q => exists_unique_prefix hs hw,
    fun l => length_prefixes_le hs hw, fun b hb => ?_⟩
  exact Prefix.takenApart (hw f b hb) ((hs.addresses f).1 b hb)

/-- Two lists are read. All IPv4 addresses are one prefix. The last three IPv6 addresses are two,
and cannot be fewer. -/
theorem prefixes_minimal_lastAddresses :
    ∃ s : ResourceSet,
      readSeparate "" "0.0.0.0-255.255.255.255"
        "ffff:ffff:ffff:ffff:ffff:ffff:ffff:fffd-ffff:ffff:ffff:ffff:ffff:ffff:ffff:ffff" = .ok s ∧
      s.Normal ∧ s.Whole ∧
      s.prefixes .ipv4 = [Prefix.containing .ipv4 0 0] ∧
      s.prefixes .ipv6 =
        [Prefix.containing .ipv6 (space - 3) 128, Prefix.containing .ipv6 (space - 2) 127] ∧
      ∀ l : List Prefix, (∀ q ∈ l, q.family = .ipv6) →
        (∀ n, (∃ q ∈ l, n ∈ q.block) ↔ s.HoldsAddress .ipv6 n) → 2 ≤ l.length := by
  let s : ResourceSet := ⟨[], [⟨0, space - 1⟩], [⟨space - 3, space - 1⟩]⟩
  have hread : readSeparate "" "0.0.0.0-255.255.255.255"
      "ffff:ffff:ffff:ffff:ffff:ffff:ffff:fffd-ffff:ffff:ffff:ffff:ffff:ffff:ffff:ffff" =
        .ok s := by
    decide +kernel
  have hs : s.Normal := by decide
  have hw : s.Whole := whole_of_readSeparate hread
  have hipv4 : s.prefixes .ipv4 = [Prefix.containing .ipv4 0 0] := by cbv
  have hipv6 : s.prefixes .ipv6 =
      [Prefix.containing .ipv6 (space - 3) 128, Prefix.containing .ipv6 (space - 2) 127] := by cbv
  obtain ⟨-, -, -, -, hminimal, -⟩ := prefixes_minimal hs hw .ipv6
  rw [hipv6] at hminimal
  exact ⟨s, hread, hs, hw, hipv4, hipv6, hminimal⟩

end ResourceSet

end RpkiAuthority
