import RpkiAuthority.Collection.OrdMap
import RpkiAuthority.Bgp.Route

/-!
# The index of announcements

The index answers which announcements are the most specific ones for a set of resources: all
announcements for the resources themselves or for more specific prefixes, and, for every part of the
resources that none of these covers, the announcements of the nearest less specific prefix.

A query takes the resources prefix by prefix. The prefixes of the index that are the query or more
specific are walked in order; the addresses between them are the gaps (`gaps`), and each prefix of a
gap is looked up by its ancestors, the longest first.
-/

namespace RpkiAuthority

/-- Which announcements are kept. -/
structure BgpFilter where
  /-- The least number of peers that have to see an announcement. -/
  visibilityThreshold : Nat
  /-- The least length of an IPv4 prefix. -/
  ipv4Floor : Nat
  /-- The least length of an IPv6 prefix. -/
  ipv6Floor : Nat
  deriving DecidableEq, Repr

namespace BgpFilter

/-- The filter used where nothing else is configured. -/
def standard : BgpFilter := ⟨5, 8, 12⟩

/-- The least length of a prefix of the family. -/
def floor (c : BgpFilter) : Family → Nat
  | .ipv4 => c.ipv4Floor
  | .ipv6 => c.ipv6Floor

/-- Whether an announcement is kept. -/
def retains (c : BgpFilter) (e : RisEntry) : Bool :=
  c.visibilityThreshold ≤ e.visibility && c.floor e.pfx.family ≤ e.pfx.len

end BgpFilter

/-- The announcements of one family by prefix. -/
abbrev FamilyIndex := OrdMap Prefix (List RisEntry)

namespace FamilyIndex

/-- The index of some announcements; of equal ones only the first is kept. -/
def build (entries : List RisEntry) : FamilyIndex :=
  entries.foldl
    (fun index e =>
      let known := (index.find? e.pfx).getD []
      if e ∈ known then index else index.insert e.pfx (known ++ [e]))
    OrdMap.empty

/-- The prefixes of the index that are the given one or more specific, with their announcements, in
order. -/
def moreSpecific (index : FamilyIndex) (p : Prefix) : List (Prefix × List RisEntry) :=
  let inside := (index.entries.dropWhile fun e => decide (e.1.addr < p.addr)).takeWhile
    fun e => decide (e.1.addr ≤ p.last)
  inside.filter fun e => decide (p.len ≤ e.1.len)

/-- The announcements of the longest prefix of the index that is strictly less specific. -/
def lessSpecific (index : FamilyIndex) (p : Prefix) : Option (List RisEntry) :=
  (List.range p.len).reverse.findSome? fun len =>
    index.find? (Prefix.containing p.family p.addr len)

/-- The address after the given one, unless that is the last. -/
def addressAfter (n : Nat) : Option Nat := if n + 1 < Address.space then some (n + 1) else none

/-- The ranges up to `last` between prefixes in ascending order. The walk carries the first address
that no prefix before covers; it is missing once the last address of all is covered. -/
def gapsFrom (last : Nat) : Option Nat → List Prefix → List Block
  | none, _ => []
  | some next, [] => if next ≤ last then [⟨next, last⟩] else []
  | some next, p :: rest =>
    (if next < p.addr then [⟨next, p.addr - 1⟩] else []) ++
      gapsFrom last (if next ≤ p.last then addressAfter p.last else some next) rest

/-- The ranges of a prefix that no prefix of the index covers, of those that are the prefix or more
specific. -/
def gaps (index : FamilyIndex) (p : Prefix) : List Block :=
  gapsFrom p.last (some p.addr) ((index.moreSpecific p).map Prod.fst)

/-- The announcements for a prefix and more specific ones. -/
def containedIn (index : FamilyIndex) (p : Prefix) : List RisEntry :=
  (index.moreSpecific p).flatMap Prod.snd

/-- The announcements of the nearest less specific prefixes for the gaps of a prefix. -/
def aroundGaps (index : FamilyIndex) (p : Prefix) : List RisEntry :=
  (index.gaps p).flatMap fun gap =>
    (Prefix.decompose p.family gap.min gap.max).flatMap fun q => (index.lessSpecific q).getD []

end FamilyIndex

/-- Announcements found for a set of resources. -/
structure MostSpecific where
  /-- Those for prefixes within the resources. -/
  contained : OrdSet RisEntry
  /-- Those for less specific prefixes. -/
  notContained : OrdSet RisEntry
  deriving DecidableEq

/-- The announcements kept, by family. -/
structure AnnouncementIndex where
  filter : BgpFilter
  ipv4 : FamilyIndex
  ipv6 : FamilyIndex

namespace AnnouncementIndex

/-- The index before any data is loaded. -/
def empty (filter : BgpFilter) : AnnouncementIndex := ⟨filter, OrdMap.empty, OrdMap.empty⟩

/-- Replaces all data. -/
def reset (index : AnnouncementIndex) (entries : List RisEntry) : AnnouncementIndex where
  filter := index.filter
  ipv4 := FamilyIndex.build <|
    entries.filter fun e => index.filter.retains e && e.pfx.family == .ipv4
  ipv6 := FamilyIndex.build <|
    entries.filter fun e => index.filter.retains e && e.pfx.family == .ipv6

/-- The announcements of a family. -/
def family (index : AnnouncementIndex) : Family → FamilyIndex
  | .ipv4 => index.ipv4
  | .ipv6 => index.ipv6

/-- The number of announcements kept. -/
def size (index : AnnouncementIndex) : Nat :=
  (index.ipv4.values ++ index.ipv6.values).flatten.length

/-- Whether no announcement is kept. -/
def isEmpty (index : AnnouncementIndex) : Bool := index.size == 0

/-- The most specific announcements for a set of resources; AS numbers in the set do not count. -/
def matching (index : AnnouncementIndex) (resources : ResourceSet) : MostSpecific where
  contained := OrdSet.ofMembers <| [Family.ipv4, .ipv6].flatMap fun f =>
    (resources.prefixes f).flatMap (index.family f).containedIn
  notContained := OrdSet.ofMembers <| [Family.ipv4, .ipv6].flatMap fun f =>
    (resources.prefixes f).flatMap (index.family f).aroundGaps

/-- The most specific announcements for a set of resources, without telling them apart. -/
def overlapping (index : AnnouncementIndex) (resources : ResourceSet) : OrdSet RisEntry :=
  let found := index.matching resources
  OrdSet.ofMembers (found.contained.toList ++ found.notContained.toList)

/-- What is noted in the log when data was loaded. -/
def loadedMessage (index : AnnouncementIndex) : String :=
  "Loaded " ++ index.size.repr ++ " BGP announcements into the index"

end AnnouncementIndex

end RpkiAuthority
