import RpkiAuthority.Proofs.Authority.Constituents
import RpkiAuthority.Proofs.Resource.Bridging
import RpkiAuthority.Proofs.Resource.Canonical

/-!
# Which sets are in normal form

The sets of this library are **built** (`ResourceSet.Built`): read from texts, made of AS numbers,
or unions of such sets. Containment, intersection, difference and equality take sets to be in normal
form. Building does not always lead there: a block that comes out of order is joined with the first
block it touches and may reach into another one behind it, and then the set has two blocks with
numbers in common.

* Every built set has its ends in order, ascending starts, and no neighbours without a gap
  (`ResourceSet.Built.joined`).
* It is in normal form **exactly if no block was a bridge** when it was put into its place
  (`ResourceSet.normal_collected_iff`). Blocks without a number in common are no bridges.
* As long as unions are in normal form, they are what unions of sets should be
  (`ResourceSet.normal_unless_bridged`): the order of the sets does not matter, the union contains
  both, and what is certified does not depend on the names of the keys.
-/

namespace RpkiAuthority

namespace ResourceSet

variable {s t u : ResourceSet} {asns : List Asn}

/-- **Sets that are built**: read, made of AS numbers, or unions of built sets. -/
inductive Built : ResourceSet → Prop where
  | read {text : String} {s : ResourceSet} (h : read text = .ok s) : Built s
  | ofAsns (asns : List Asn) : Built (ofAsns asns)
  | union {s t : ResourceSet} (hs : Built s) (ht : Built t) : Built (s.union t)

/-! ### List by list -/

/-- Each list has its ends in order, ascending starts, and no neighbours without a gap. -/
structure Joined (s : ResourceSet) : Prop where
  asns : Block.Joined s.asns
  ipv4 : Block.Joined s.ipv4
  ipv6 : Block.Joined s.ipv6

/-- No two blocks of a list share a number. -/
def Apart (s : ResourceSet) : Prop :=
  Block.Apart s.asns ∧ Block.Apart s.ipv4 ∧ Block.Apart s.ipv6

/-- No block that comes out of order is a bridge. -/
def Unbridged (s : ResourceSet) : Prop :=
  Block.Unbridged s.asns ∧ Block.Unbridged s.ipv4 ∧ Block.Unbridged s.ipv6

instance (s : ResourceSet) : Decidable s.Unbridged := inferInstanceAs (Decidable (_ ∧ _ ∧ _))

theorem Joined.ordered (h : s.Joined) : s.Ordered :=
  ⟨h.asns.ordered, h.ipv4.ordered, h.ipv6.ordered⟩

theorem Joined.normal_iff (h : s.Joined) : s.Normal ↔ s.Apart :=
  and_congr h.asns.normal_iff (and_congr h.ipv4.normal_iff h.ipv6.normal_iff)

theorem joined_collected (h : s.Ordered) : s.collected.Joined :=
  ⟨Block.joined_collect h.1, Block.joined_collect h.2.1, Block.joined_collect h.2.2⟩

/-- **A collected set is in normal form exactly if no block was a bridge.** -/
theorem normal_collected_iff (h : s.Ordered) : s.collected.Normal ↔ s.Unbridged :=
  and_congr (Block.normal_collect_iff h.1)
    (and_congr (Block.normal_collect_iff h.2.1) (Block.normal_collect_iff h.2.2))

/-- Blocks without a number in common are no bridges. -/
theorem normal_collected_of_apart (h : s.Ordered) (hapart : s.Apart) : s.collected.Normal :=
  (normal_collected_iff h).mpr ⟨Block.unbridged_of_apart h.1 hapart.1,
    Block.unbridged_of_apart h.2.1 hapart.2.1, Block.unbridged_of_apart h.2.2 hapart.2.2⟩

/-- AS numbers that are given only once are apart. -/
theorem apart_singles (h : asns.Nodup) : (singles asns).Apart := by
  refine ⟨List.pairwise_map.mpr (h.imp fun {a b} hne => ?_), .nil, .nil⟩
  have hne' : a.toNat ≠ b.toNat := fun heq => hne (Asn.eq_of_toNat_eq heq)
  refine Bool.eq_false_iff.mpr fun hmeets => hne' ?_
  rw [Block.meets, Bool.and_eq_true] at hmeets
  exact Nat.le_antisymm (of_decide_eq_true hmeets.1) (of_decide_eq_true hmeets.2)

/-! ### Unions -/

theorem Ordered.union (hs : s.Ordered) (ht : t.Ordered) : (s.union t).Ordered :=
  ordered_collected (hs.beside ht)

theorem holds_asns_union (hs : s.Ordered) (ht : t.Ordered) (n : Nat) :
    Block.Holds (s.union t).asns n ↔ Block.Holds s.asns n ∨ Block.Holds t.asns n :=
  Block.holds_union hs.1 ht.1 n

theorem holds_addresses_union (hs : s.Ordered) (ht : t.Ordered) (f : Family) (n : Nat) :
    Block.Holds ((s.union t).addresses f) n ↔
      Block.Holds (s.addresses f) n ∨ Block.Holds (t.addresses f) n := by
  rw [union_eq_collected, addresses_collected, addresses_beside,
    Block.holds_collect ((hs.addresses f).append (ht.addresses f)), Block.holds_append]

/-- **The order of two sets does not matter** for their union, as long as it is in normal form. -/
theorem union_comm (hs : s.Ordered) (ht : t.Ordered) (h : (s.union t).Normal)
    (h' : (t.union s).Normal) : s.union t = t.union s := by
  refine h.ext h' (fun n => ?_) fun f n => ?_
  · rw [holds_asns_union hs ht, holds_asns_union ht hs, or_comm]
  · rw [holds_addresses_union hs ht, holds_addresses_union ht hs, or_comm]

theorem union_assoc (hs : s.Ordered) (ht : t.Ordered) (hu : u.Ordered)
    (h : ((s.union t).union u).Normal) (h' : (s.union (t.union u)).Normal) :
    (s.union t).union u = s.union (t.union u) := by
  refine h.ext h' (fun n => ?_) fun f n => ?_
  · rw [holds_asns_union (hs.union ht) hu, holds_asns_union hs ht,
      holds_asns_union hs (ht.union hu), holds_asns_union ht hu, or_assoc]
  · rw [holds_addresses_union (hs.union ht) hu, holds_addresses_union hs ht,
      holds_addresses_union hs (ht.union hu), holds_addresses_union ht hu, or_assoc]

/-- **A set in normal form takes in its own resources without a change.** -/
theorem union_eq_self (hs : s.Normal) (ht : t.Ordered)
    (hasns : ∀ n, Block.Holds t.asns n → Block.Holds s.asns n)
    (haddresses : ∀ f n, Block.Holds (t.addresses f) n → Block.Holds (s.addresses f) n) :
    s.union t = s := by
  have hlist : (s.union t).asns = s.asns := Block.collect_append_eq_self hs.1 ht.1 hasns
  have hv4 : (s.union t).ipv4 = s.ipv4 :=
    Block.collect_append_eq_self hs.2.1 ht.2.1 (haddresses .ipv4)
  have hv6 : (s.union t).ipv6 = s.ipv6 :=
    Block.collect_append_eq_self hs.2.2 ht.2.2 (haddresses .ipv6)
  calc s.union t = ⟨(s.union t).asns, (s.union t).ipv4, (s.union t).ipv6⟩ := rfl
    _ = s := by rw [hlist, hv4, hv6]

/-- A set in normal form contains every joined set whose numbers it has. -/
theorem contains_of_holds (hs : s.Normal) (ht : t.Joined)
    (hasns : ∀ n, Block.Holds t.asns n → Block.Holds s.asns n)
    (haddresses : ∀ f n, Block.Holds (t.addresses f) n → Block.Holds (s.addresses f) n) :
    s.contains t = true := by
  rw [contains, Bool.and_eq_true, Bool.and_eq_true]
  exact ⟨⟨(Block.covered_iff ht.asns.ordered ht.asns.ascending hs.1).mpr hasns,
    (Block.covered_iff ht.ipv4.ordered ht.ipv4.ascending hs.2.1).mpr (haddresses .ipv4)⟩,
    (Block.covered_iff ht.ipv6.ordered ht.ipv6.ascending hs.2.2).mpr (haddresses .ipv6)⟩

/-! ### Built sets -/

/-- **Every built set** has its ends in order, ascending starts, and no neighbours without a gap. -/
theorem Built.joined (h : s.Built) : s.Joined := by
  induction h with
  | read h =>
    obtain ⟨l, hl, rfl⟩ := read_eq_ok_iff.mp h
    exact joined_collected (ordered_listed hl)
  | ofAsns asns => exact joined_collected (ordered_singles asns)
  | union _ _ hs ht => exact joined_collected (hs.ordered.beside ht.ordered)

end ResourceSet

namespace CertificateAuthority

variable {ca ca' : CertificateAuthority}

/-- The numbers that are certified, list by list, are those of the certificates. -/
theorem holds_certified_congr
    (hbuilt : ∀ certificate ∈ ca.incoming.values, certificate.Built)
    (hsame : ∀ certificate, certificate ∈ ca.incoming.values ↔ certificate ∈ ca'.incoming.values)
    (blocks : ResourceSet → List Block)
    (hunion : ∀ a b, blocks (a.union b) = Block.union (blocks a) (blocks b))
    (hempty : blocks ResourceSet.empty = [])
    (hblocks : ∀ r : ResourceSet, r.Ordered → Block.Ordered (blocks r)) (n : Nat) :
    Block.Holds (blocks ca.certified) n ↔ Block.Holds (blocks ca'.certified) n := by
  have hholds : ∀ {ca : CertificateAuthority},
      (∀ certificate ∈ ca.incoming.values, certificate.Built) →
      (Block.Holds (blocks ca.certified) n ↔
        ∃ certificate ∈ ca.incoming.values, Block.Holds (blocks certificate) n) := by
    intro ca hbuilt
    obtain ⟨-, -, hholds⟩ := ResourceSet.foldl_union_spec blocks hunion
      (fun r hr => hblocks r (hbuilt r hr).joined.ordered) (s := ResourceSet.empty)
      (by rw [hempty]; exact fun b hb => absurd hb List.not_mem_nil) (by rw [hempty]; exact .nil)
    refine (hholds n).trans (or_iff_right ?_)
    rw [hempty]
    exact Block.not_holds_nil n
  rw [hholds hbuilt, hholds fun certificate hc => hbuilt certificate ((hsame certificate).mpr hc)]
  simp only [hsame]

/-- **What is certified does not depend on the names of the keys**, as long as it is in normal
form. -/
theorem certified_congr (hbuilt : ∀ certificate ∈ ca.incoming.values, certificate.Built)
    (hsame : ∀ certificate, certificate ∈ ca.incoming.values ↔ certificate ∈ ca'.incoming.values)
    (h : ca.certified.Normal) (h' : ca'.certified.Normal) : ca.certified = ca'.certified := by
  refine h.ext h' (holds_certified_congr hbuilt hsame _ (fun _ _ => rfl) rfl fun r hr => hr.1)
    fun f => ?_
  refine holds_certified_congr hbuilt hsame _ ?_ ?_ fun r hr => hr.addresses f
  · cases f <;> exact fun _ _ => rfl
  · cases f <;> rfl

end CertificateAuthority

namespace ResourceSet

/-- **Built sets are in normal form unless a block was a bridge.** Of every built set the ends are
in order, the starts ascend, and no neighbours are left to join, so that all that can be missing is
that blocks have numbers in common. That happens exactly if a block that was collected out of order
was a bridge, for which it has to share numbers with others.

As far as they are in normal form, unions depend neither on the order nor on the grouping of the
sets and contain each of them, a set takes in itself without a change, and what is certified is the
same whatever the names of the keys. -/
theorem normal_unless_bridged (hs : s.Built) (ht : t.Built) (hu : u.Built) :
    s.Joined ∧ (s.Normal ↔ s.Apart) ∧
    (∀ text : String, read text = .ok s →
      ∃ l, (items text.toList).mapM readItem = .ok l ∧ (s.Normal ↔ (listed l).Unbridged) ∧
        ((listed l).Apart → s.Normal)) ∧
    (∀ asns : List Asn, s = ofAsns asns →
      (s.Normal ↔ (singles asns).Unbridged) ∧ (asns.Nodup → s.Normal)) ∧
    ((s.union t).Normal ↔ (s.beside t).Unbridged) ∧ ((s.beside t).Apart → (s.union t).Normal) ∧
    ((s.union t).Normal → (t.union s).Normal → s.union t = t.union s) ∧
    (((s.union t).union u).Normal → (s.union (t.union u)).Normal →
      (s.union t).union u = s.union (t.union u)) ∧
    (s.Normal → s.union s = s) ∧
    ((s.union t).Normal → (s.union t).contains s = true ∧ (s.union t).contains t = true) ∧
    ∀ ca ca' : CertificateAuthority,
      (∀ certificate ∈ ca.incoming.values, certificate.Built) →
      (∀ certificate, certificate ∈ ca.incoming.values ↔ certificate ∈ ca'.incoming.values) →
      ca.certified.Normal → ca'.certified.Normal → ca.certified = ca'.certified := by
  have hs' := hs.joined.ordered
  have ht' := ht.joined.ordered
  have hbeside : (s.beside t).Ordered := hs'.beside ht'
  refine ⟨hs.joined, hs.joined.normal_iff, fun text h => ?_, ?_, normal_collected_iff hbeside,
    normal_collected_of_apart hbeside, union_comm hs' ht', union_assoc hs' ht' hu.joined.ordered,
    fun h => union_eq_self h hs' (fun _ => id) fun _ _ => id, fun h => ?_,
    fun ca ca' hbuilt hsame => CertificateAuthority.certified_congr hbuilt hsame⟩
  · obtain ⟨l, hl, rfl⟩ := read_eq_ok_iff.mp h
    exact ⟨l, hl, normal_collected_iff (ordered_listed hl),
      normal_collected_of_apart (ordered_listed hl)⟩
  · rintro asns rfl
    exact ⟨normal_collected_iff (ordered_singles asns),
      fun h => normal_collected_of_apart (ordered_singles asns) (apart_singles h)⟩
  · exact ⟨contains_of_holds h hs.joined (fun n hn => (holds_asns_union hs' ht' n).mpr (.inl hn))
        fun f n hn => (holds_addresses_union hs' ht' f n).mpr (.inl hn),
      contains_of_holds h ht.joined (fun n hn => (holds_asns_union hs' ht' n).mpr (.inr hn))
        fun f n hn => (holds_addresses_union hs' ht' f n).mpr (.inr hn)⟩

/-- A range of AS numbers that meets only one of those collected before it is no bridge. -/
theorem normal_unless_bridged_reaching :
    ∃ s t u : ResourceSet,
      read "AS10-AS20" = .ok s ∧ read "AS5-AS35" = .ok t ∧ read "AS30-AS40" = .ok u ∧
      (s.union t).Normal ∧ s.union t = t.union s ∧
      (s.union t).union u = s.union (t.union u) ∧ s.union s = s ∧
      (s.union t).contains s = true ∧ (s.union t).contains t = true ∧
      (certifiedFor s t).certified = (certifiedFor t s).certified := by
  let s : ResourceSet := ⟨[⟨10, 20⟩], [], []⟩
  let t : ResourceSet := ⟨[⟨5, 35⟩], [], []⟩
  let u : ResourceSet := ⟨[⟨30, 40⟩], [], []⟩
  let v : ResourceSet := ⟨[⟨5, 40⟩], [], []⟩
  have hs : read "AS10-AS20" = .ok s := rfl
  have ht : read "AS5-AS35" = .ok t := rfl
  have hu : read "AS30-AS40" = .ok u := rfl
  obtain ⟨-, -, -, -, hnormal, -, hcomm, hassoc, hself, hcontains, hcertified⟩ :=
    normal_unless_bridged (.read hs) (.read ht) (.read hu)
  have hst : (s.union t).Normal := hnormal.mpr (by decide)
  have hts : (t.union s).Normal := by decide
  have hbuilt : ∀ certificate ∈ (certifiedFor s t).incoming.values, certificate.Built := by
    have hvalues : (certifiedFor s t).incoming.values = [s, t] := by decide
    rw [hvalues]
    exact List.forall_mem_cons.mpr ⟨.read hs, List.forall_mem_singleton.mpr (.read ht)⟩
  have hsame : (certifiedFor s t).incoming.values.Perm (certifiedFor t s).incoming.values := by
    decide
  have hleft : (s.union t).union u = v := by cbv
  have hright : s.union (t.union u) = v := by cbv
  have hone : (certifiedFor s t).certified = t := by cbv
  have hother : (certifiedFor t s).certified = t := by cbv
  exact ⟨s, t, u, hs, ht, hu, hst, hcomm hst hts,
    hassoc (by rw [hleft]; decide) (by rw [hright]; decide), hself (by decide),
    (hcontains hst).1, (hcontains hst).2,
    hcertified _ _ hbuilt (fun certificate => hsame.mem_iff) (by rw [hone]; decide)
      (by rw [hother]; decide)⟩

/-- **Not every built set is in normal form**: the union of two sets of AS numbers, as also the set
of the same items as one text, has two blocks with numbers in common. The union then depends on the
order, it does not contain the first set, and what is certified for two keys depends on their
names. -/
theorem not_normal_of_bridged :
    ∃ s t u : ResourceSet,
      read "AS10-AS20, AS30-AS40" = .ok s ∧ read "AS5-AS35" = .ok t ∧
      read "AS10-AS20, AS30-AS40, AS5-AS35" = .ok u ∧ s.union t = u ∧ u.Built ∧ ¬u.Normal ∧
      s.union t ≠ t.union s ∧ (s.union t).contains s = false ∧
      (certifiedFor s t).certified ≠ (certifiedFor t s).certified := by
  let s : ResourceSet := ⟨[⟨10, 20⟩, ⟨30, 40⟩], [], []⟩
  let t : ResourceSet := ⟨[⟨5, 35⟩], [], []⟩
  let u : ResourceSet := ⟨[⟨5, 35⟩, ⟨30, 40⟩], [], []⟩
  let v : ResourceSet := ⟨[⟨5, 40⟩], [], []⟩
  have hu : read "AS10-AS20, AS30-AS40, AS5-AS35" = .ok u :=
    read_eq_ok_iff.mpr ⟨[.asns ⟨10, 20⟩, .asns ⟨30, 40⟩, .asns ⟨5, 35⟩], rfl, by cbv⟩
  have hst : s.union t = u := by cbv
  have hts : t.union s = v := by cbv
  have hfirst : (certifiedFor s t).certified = u := by cbv
  have hsecond : (certifiedFor t s).certified = v := by cbv
  refine ⟨s, t, u, rfl, rfl, hu, hst, .read hu, by decide, ?_, ?_, ?_⟩
  · rw [hst, hts]
    decide
  · rw [hst]
    decide
  · rw [hfirst, hsecond]
    decide

end ResourceSet

end RpkiAuthority
