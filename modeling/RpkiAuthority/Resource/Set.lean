import RpkiAuthority.Resource.Asn
import RpkiAuthority.Resource.Prefix

/-!
# Resource sets

A resource set holds AS numbers and addresses of both families, each as a list of blocks. The
operations work on the three lists separately.
-/

namespace RpkiAuthority

/-- A set of AS numbers and of IPv4 and IPv6 addresses. -/
structure ResourceSet where
  asns : List Block
  ipv4 : List Block
  ipv6 : List Block
  deriving DecidableEq, Repr

namespace ResourceSet

/-- The set without resources. -/
def empty : ResourceSet := ⟨[], [], []⟩

instance : EmptyCollection ResourceSet := ⟨empty⟩
instance : Inhabited ResourceSet := ⟨empty⟩

/-- The set of the given AS numbers. -/
def ofAsns (asns : List Asn) : ResourceSet :=
  ⟨Block.collect (asns.map fun a => Block.single a.toNat), [], []⟩

/-- The set of the addresses of a prefix. -/
def ofPrefix (p : Prefix) : ResourceSet :=
  match p.family with
  | .ipv4 => ⟨[], [p.block], []⟩
  | .ipv6 => ⟨[], [], [p.block]⟩

/-- Whether none of the lists has a block. -/
def isEmpty (s : ResourceSet) : Bool := s.asns.isEmpty && s.ipv4.isEmpty && s.ipv6.isEmpty

/-- The blocks of the addresses of a family. -/
def addresses (s : ResourceSet) : Family → List Block
  | .ipv4 => s.ipv4
  | .ipv6 => s.ipv6

/-- The resources of either set. -/
def union (a b : ResourceSet) : ResourceSet :=
  ⟨Block.union a.asns b.asns, Block.union a.ipv4 b.ipv4, Block.union a.ipv6 b.ipv6⟩

/-- The resources of both sets. -/
def intersection (a b : ResourceSet) : ResourceSet :=
  ⟨Block.intersection a.asns b.asns, Block.intersection a.ipv4 b.ipv4,
    Block.intersection a.ipv6 b.ipv6⟩

/-- The resources of the first set that are not in the second. -/
def difference (a b : ResourceSet) : ResourceSet :=
  ⟨Block.difference a.asns b.asns, Block.difference a.ipv4 b.ipv4,
    Block.difference a.ipv6 b.ipv6⟩

/-- Whether all resources of the second set are in the first. -/
def contains (a b : ResourceSet) : Bool :=
  Block.covered b.asns a.asns && Block.covered b.ipv4 a.ipv4 && Block.covered b.ipv6 a.ipv6

/-- Whether an AS number is in the set. -/
def containsAsn (s : ResourceSet) (a : Asn) : Bool := Block.holds a.toNat s.asns

/-- Whether the set shares an address with a prefix. -/
def overlaps (s : ResourceSet) (p : Prefix) : Bool :=
  Block.meetsAny (s.addresses p.family) p.block

/-- The prefixes that make up the addresses of a family, block by block. -/
def prefixes (s : ResourceSet) (f : Family) : List Prefix :=
  (s.addresses f).flatMap fun b => Prefix.decompose f b.min b.max

/-- **Normal form.** Each of the three lists is in normal form. -/
def Normal (s : ResourceSet) : Prop :=
  Block.Normal s.asns ∧ Block.Normal s.ipv4 ∧ Block.Normal s.ipv6

end ResourceSet

end RpkiAuthority
