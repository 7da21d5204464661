import RpkiAuthority.Proofs.Bgp.Index
import RpkiAuthority.Proofs.Resource.Read

/-!
# The most specific announcements for a set of resources

A set of resources is asked about prefix by prefix, and the answers about single prefixes are put
together. That this is the answer about the set as a whole is not a matter of course: an
announcement for two neighbouring prefixes of the set together is within the set, but within
neither of them. No such announcement exists, because the prefixes of a set in normal form are the
largest ones in it (`ResourceSet.len_le_of_mem_prefixes`).

So an announcement is found as contained exactly if all its addresses are in the set, and as not
contained exactly if they are not but it is the nearest one for an address of the set
(`AnnouncementIndex.matching_reset`).
-/

namespace RpkiAuthority

variable {f : Family} {entries : List RisEntry} {s : ResourceSet} {e : RisEntry}

/-! ### One family -/

namespace FamilyIndex

variable {index : FamilyIndex}

/-- **What is announced within the prefixes of a set** is what is announced within the set. -/
theorem IndexOf.mem_containedIn_prefixes (h : IndexOf index f entries) (hs : s.Normal)
    (hw : s.Whole) :
    e ∈ (s.prefixes f).flatMap index.containedIn ↔ e ∈ entries ∧ s.Includes e.pfx := by
  rw [List.mem_flatMap]
  constructor
  · rintro ⟨p, hp, he⟩
    obtain ⟨he, hin⟩ := h.mem_containedIn.mp he
    refine ⟨he, fun n hn => ?_⟩
    rw [h.family_eq e he]
    exact ResourceSet.holdsAddress_of_mem_prefixes hw hp (hin n hn)
  · rintro ⟨he, hin⟩
    have hfamily := h.family_eq e he
    obtain ⟨p, hp, haddr⟩ :=
      ResourceSet.exists_mem_prefixes hw (hfamily ▸ hin e.pfx.addr e.pfx.addr_mem_block)
    have hlen := ResourceSet.len_le_of_mem_prefixes hs hw hp hfamily hin haddr
      e.pfx.addr_mem_block
    exact ⟨p, hp, h.mem_containedIn.mpr ⟨he, Prefix.subset_iff.mpr ⟨hlen, haddr⟩⟩⟩

/-- **What is announced around the gaps of the prefixes of a set** is what is announced beyond the
set and nearest for one of its addresses. -/
theorem IndexOf.mem_aroundGaps_prefixes (h : IndexOf index f entries) (hs : s.Normal)
    (hw : s.Whole) :
    e ∈ (s.prefixes f).flatMap index.aroundGaps ↔
      e ∈ entries ∧ ¬s.Includes e.pfx ∧ ∃ n, s.HoldsAddress f n ∧ e.IsNearest entries n := by
  rw [List.mem_flatMap]
  constructor
  · rintro ⟨p, hp, he⟩
    obtain ⟨he, hlen, n, hn, hnear⟩ :=
      (h.mem_aroundGaps (ResourceSet.family_of_mem_prefixes hp)).mp he
    refine ⟨he, fun hin => ?_, n, ResourceSet.holdsAddress_of_mem_prefixes hw hp hn, hnear⟩
    have hle := ResourceSet.len_le_of_mem_prefixes hs hw hp (h.family_eq e he) hin hn hnear.1
    exact absurd hle (Nat.not_le.mpr hlen)
  · rintro ⟨he, hout, n, hn, hnear⟩
    obtain ⟨p, hp, hpn⟩ := ResourceSet.exists_mem_prefixes hw hn
    refine ⟨p, hp, (h.mem_aroundGaps (ResourceSet.family_of_mem_prefixes hp)).mpr
      ⟨he, Nat.lt_of_not_le fun hle => hout fun m hm => ?_, n, hpn, hnear⟩⟩
    -- a prefix no shorter than the piece would lie in it
    rw [h.family_eq e he]
    exact ResourceSet.holdsAddress_of_mem_prefixes hw hp (Prefix.nested hle hnear.1 hpn hm)

end FamilyIndex

/-! ### Both families -/

namespace AnnouncementIndex

variable {index : AnnouncementIndex} {n : Nat}

/-- The announcements that the filter of the index retains. -/
def retained (index : AnnouncementIndex) (entries : List RisEntry) : List RisEntry :=
  entries.filter index.filter.retains

/-- The announcements that the filter of the index retains for a family. -/
def retainedFor (index : AnnouncementIndex) (entries : List RisEntry) (f : Family) :
    List RisEntry :=
  entries.filter fun e => index.filter.retains e && e.pfx.family == f

theorem mem_retainedFor :
    e ∈ index.retainedFor entries f ↔ e ∈ index.retained entries ∧ e.pfx.family = f := by
  simp only [retainedFor, retained, List.mem_filter, Bool.and_eq_true, beq_iff_eq, and_assoc]

/-- After a reset the index of a family is that of the announcements retained for it. -/
theorem indexOf_reset (index : AnnouncementIndex) (entries : List RisEntry) (f : Family) :
    FamilyIndex.IndexOf ((index.reset entries).family f) f (index.retainedFor entries f) := by
  cases f with
  | ipv4 => exact FamilyIndex.indexOf_build fun e he => (mem_retainedFor.mp he).2
  | ipv6 => exact FamilyIndex.indexOf_build fun e he => (mem_retainedFor.mp he).2

/-- Announcements of the other family do not matter for the nearest one. -/
theorem isNearest_retainedFor :
    e.IsNearest (index.retainedFor entries e.pfx.family) n ↔
      e.IsNearest (index.retained entries) n := by
  refine and_congr_right fun _ => ⟨fun h d hd hf => ?_, fun h d hd hf => ?_⟩
  · exact h d (mem_retainedFor.mpr ⟨hd, hf⟩) hf
  · exact h d (mem_retainedFor.mp hd).1 hf

theorem mem_both {α : Type} {a : α} {g : Family → List α} :
    a ∈ [Family.ipv4, .ipv6].flatMap g ↔ ∃ f, a ∈ g f := by
  simp only [List.mem_flatMap]
  refine exists_congr fun f => and_iff_right ?_
  cases f <;> simp

theorem mem_contained_reset (hs : s.Normal) (hw : s.Whole) :
    e ∈ ((index.reset entries).matching s).contained.toList ↔
      e ∈ index.retained entries ∧ s.Includes e.pfx := by
  rw [matching, OrdSet.mem_toList_ofMembers, mem_both]
  simp only [(indexOf_reset index entries _).mem_containedIn_prefixes hs hw, mem_retainedFor]
  exact ⟨fun ⟨_, he, hin⟩ => ⟨he.1, hin⟩, fun ⟨he, hin⟩ => ⟨_, ⟨he, rfl⟩, hin⟩⟩

theorem mem_notContained_reset (hs : s.Normal) (hw : s.Whole) :
    e ∈ ((index.reset entries).matching s).notContained.toList ↔
      e ∈ index.retained entries ∧ ¬s.Includes e.pfx ∧
        ∃ n, s.HoldsAddress e.pfx.family n ∧ e.IsNearest (index.retained entries) n := by
  rw [matching, OrdSet.mem_toList_ofMembers, mem_both]
  simp only [(indexOf_reset index entries _).mem_aroundGaps_prefixes hs hw, mem_retainedFor,
    ← isNearest_retainedFor]
  constructor
  · rintro ⟨f, ⟨he, rfl⟩, hout, hnear⟩
    exact ⟨he, hout, hnear⟩
  · rintro ⟨he, hout, hnear⟩
    exact ⟨e.pfx.family, ⟨he, rfl⟩, hout, hnear⟩

/-- For a prefix, the walks and the search of the index give what scans of a list of announcements
give. -/
structure AgreesWithScan (index : AnnouncementIndex) (entries : List RisEntry) (p : Prefix) :
    Prop where
  containedIn : ∀ e, e ∈ (index.family p.family).containedIn p ↔
    (e ∈ entries ∧ e.pfx.family = p.family) ∧ ∀ n ∈ e.pfx.block, n ∈ p.block
  gaps : ∀ n, Block.Holds ((index.family p.family).gaps p) n ↔
    n ∈ p.block ∧ ∀ e, e ∈ entries ∧ e.pfx.family = p.family →
      (∀ m ∈ e.pfx.block, m ∈ p.block) → n ∉ e.pfx.block
  lessSpecific : ∀ e, e ∈ ((index.family p.family).lessSpecific p).getD [] ↔
    ((e ∈ entries ∧ e.pfx.family = p.family) ∧ e.pfx.len < p.len ∧ p.addr ∈ e.pfx.block) ∧
      ∀ d, d ∈ entries ∧ d.pfx.family = p.family →
        d.pfx.len < p.len → p.addr ∈ d.pfx.block → d.pfx.len ≤ e.pfx.len

theorem agreesWithScan_reset (index : AnnouncementIndex) (entries : List RisEntry) (p : Prefix) :
    (index.reset entries).AgreesWithScan (index.retained entries) p := by
  have h := indexOf_reset index entries p.family
  refine ⟨fun e => ?_, fun n => ?_, fun e => ?_⟩
  · rw [h.mem_containedIn, mem_retainedFor]
  · simp only [h.holds_gaps, mem_retainedFor]
  · simp only [h.mem_lessSpecific rfl, mem_retainedFor]

/-- **The answer for a set of resources** in normal form: contained are the retained announcements
all of whose addresses are in the set, and not contained are those that are not, but are the
nearest ones for an address of the set. No announcement is both, and the walks and the search that
lead to the answer give what scans of all retained announcements give. Every set that is read is
whole (`ResourceSet.whole_of_read`). -/
theorem matching_reset (index : AnnouncementIndex) (entries : List RisEntry) (s : ResourceSet)
    (hs : s.Normal) (hw : s.Whole) :
    (∀ e, e ∈ ((index.reset entries).matching s).contained.toList ↔
      e ∈ index.retained entries ∧ s.Includes e.pfx) ∧
    (∀ e, e ∈ ((index.reset entries).matching s).notContained.toList ↔
      e ∈ index.retained entries ∧ ¬s.Includes e.pfx ∧
        ∃ n, s.HoldsAddress e.pfx.family n ∧ e.IsNearest (index.retained entries) n) ∧
    (∀ e ∈ ((index.reset entries).matching s).contained.toList,
      e ∉ ((index.reset entries).matching s).notContained.toList) ∧
    ∀ p, (index.reset entries).AgreesWithScan (index.retained entries) p := by
  refine ⟨fun e => mem_contained_reset hs hw, fun e => mem_notContained_reset hs hw,
    fun e he hout => ?_, agreesWithScan_reset index entries⟩
  exact ((mem_notContained_reset hs hw).mp hout).2.1 ((mem_contained_reset hs hw).mp he).2

/-- The prefix `193.16.0.0/15`. -/
def asked : Prefix := Prefix.containing .ipv4 (0xc1100000 <<< 96) 15

/-- An announcement for the first half, `193.16.0.0/16`. -/
def narrow : RisEntry :=
  ⟨⟨65535, by decide⟩, Prefix.containing .ipv4 (0xc1100000 <<< 96) 16, 5, by decide⟩

/-- An announcement for `193.0.0.0/8`, the nearest one for the second half. -/
def wide : RisEntry :=
  ⟨⟨3333, by decide⟩, Prefix.containing .ipv4 (0xc1000000 <<< 96) 8, 5, by decide⟩

/-- What is found for the prefix among these two. -/
def split : MostSpecific := ((empty .standard).reset [narrow, wide]).matching (.ofPrefix asked)

theorem matching_reset_split :
    narrow ∈ split.contained.toList ∧ wide ∈ split.notContained.toList := by
  obtain ⟨hin, hout, -⟩ := matching_reset (empty .standard) [narrow, wide] (.ofPrefix asked)
    (ResourceSet.normal_ofPrefix asked) (ResourceSet.whole_ofPrefix asked)
  have hretained : (empty .standard).retained [narrow, wide] = [narrow, wide] := by decide
  rw [hretained] at hin hout
  refine ⟨(hin narrow).mpr ⟨List.mem_cons_self, ?_⟩,
    (hout wide).mpr ⟨List.mem_cons_of_mem _ List.mem_cons_self, ?_, 0xc1110000 <<< 96, ?_, ?_, ?_⟩⟩
  · rw [ResourceSet.includes_ofPrefix (show narrow.pfx.family = asked.family from rfl),
      Prefix.subset_iff]
    exact ⟨by decide, by decide, by decide⟩
  · rw [ResourceSet.includes_ofPrefix (show wide.pfx.family = asked.family from rfl),
      Prefix.subset_iff]
    exact fun h => absurd h.1 (by decide)
  · exact ⟨_, List.mem_cons_self, by decide, by decide⟩
  · exact ⟨by decide, by decide⟩
  · -- the longer prefix ends before the address
    intro d hd _ hmem
    rcases List.mem_cons.mp hd with rfl | hd
    · exact absurd hmem.2 (by decide)
    · exact Nat.le_of_eq (congrArg (fun d => d.pfx.len) (List.mem_singleton.mp hd))

end AnnouncementIndex

end RpkiAuthority
