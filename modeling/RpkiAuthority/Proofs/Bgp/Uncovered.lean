import RpkiAuthority.Proofs.Bgp.Index
import RpkiAuthority.Proofs.Resource.Walks

/-!
# The gaps of a prefix, in words of 128 bits

The walk along the more specific prefixes of an index leaves gaps. They are in normal form
(`FamilyIndex.OfFamily.normal_gaps`): none is empty, they ascend, and between two of them stands at
least one address of a prefix that was walked past.

Addresses are words of 128 bits, and the walk does arithmetic at both ends of a prefix: it ends a
gap right before the prefix and goes on right behind it. In words neither need exist. The walk in
words (`FamilyIndex.wordGapsFrom`) therefore has no result where the subtraction would go below
zero, and nothing left to cover where the addition would go beyond the last address. It always has a
result, and that is the walk along numbers (`FamilyIndex.wordGapsFrom_eq`): a gap ends before a
prefix only if it has an address before it, and the addition fails only at the last address of all.
-/

namespace RpkiAuthority

open Address

/-! ### Words -/

/-- A word of 128 bits. -/
abbrev Word := BitVec 128

namespace Word

/-- The word of an address. -/
def ofAddress (n : Nat) : Word := BitVec.ofNat 128 n

/-- The difference of two words, which is missing where it is below zero. -/
def checkedSub (a b : Word) : Option Word := if b ≤ a then some (a - b) else none

/-- The sum of two words, which is missing where it has more than 128 bits. -/
def checkedAdd (a b : Word) : Option Word :=
  if a.toNat + b.toNat < space then some (a + b) else none

/-- The bits of an address that the prefixes of a length do not share. -/
def hostMask (len : Nat) : Word := if len < 128 then BitVec.allOnes 128 >>> len else 0

variable {m n : Nat}

theorem toNat_ofAddress (h : n < space) : (ofAddress n).toNat = n := by
  rw [space_eq] at h
  exact Nat.mod_eq_of_lt h

theorem ofAddress_lt_iff (hm : m < space) (hn : n < space) : ofAddress m < ofAddress n ↔ m < n := by
  rw [BitVec.lt_def, toNat_ofAddress hm, toNat_ofAddress hn]

theorem ofAddress_le_iff (hm : m < space) (hn : n < space) : ofAddress m ≤ ofAddress n ↔ m ≤ n := by
  rw [BitVec.le_def, toNat_ofAddress hm, toNat_ofAddress hn]

/-- One may be subtracted from every address but the first. -/
theorem checkedSub_one (hn : n < space) (hpos : 0 < n) :
    (ofAddress n).checkedSub 1 = some (ofAddress (n - 1)) := by
  have hone : (1 : Word) = ofAddress 1 := rfl
  have hle : ofAddress 1 ≤ ofAddress n := (ofAddress_le_iff (by decide) hn).mpr hpos
  rw [checkedSub, hone, if_pos hle]
  refine congrArg some (BitVec.eq_of_toNat_eq ?_)
  rw [BitVec.toNat_sub_of_le hle, toNat_ofAddress hn, toNat_ofAddress (by decide),
    toNat_ofAddress (Nat.lt_of_le_of_lt (Nat.sub_le n 1) hn)]

/-- One may be added to every address but the last. -/
theorem checkedAdd_one (hn : n < space) :
    (ofAddress n).checkedAdd 1 = (FamilyIndex.addressAfter n).map ofAddress := by
  have hone : (1 : Word).toNat = 1 := rfl
  rw [checkedAdd, toNat_ofAddress hn, hone, FamilyIndex.addressAfter]
  split
  · next hlt =>
    refine congrArg some (BitVec.eq_of_toNat_eq ?_)
    rw [BitVec.toNat_add, toNat_ofAddress hn, hone, toNat_ofAddress hlt, ← space_eq]
    exact Nat.mod_eq_of_lt hlt
  · rfl

theorem toNat_hostMask {len : Nat} (h : len ≤ 128) : (hostMask len).toNat = blockSize len - 1 := by
  rw [hostMask, blockSize_eq]
  split
  · have hsplit : 2 ^ 128 = 2 ^ len * 2 ^ (128 - len) := by
      rw [← Nat.pow_add, Nat.add_sub_cancel' h]
    rw [BitVec.toNat_ushiftRight, BitVec.toNat_allOnes, Nat.shiftRight_eq_div_pow, hsplit,
      Nat.mul_sub_div 0 _ _ (Nat.mul_pos (Nat.two_pow_pos _) (Nat.two_pow_pos _)), Nat.zero_div]
  · next hge =>
    have hfull : len = 128 := by omega
    rw [hfull]
    rfl

/-- **The last address of a prefix** has the bits set that its addresses do not share. -/
theorem or_hostMask (p : Prefix) : ofAddress p.addr ||| hostMask p.len = ofAddress p.last := by
  have hlen : p.len ≤ 128 := Nat.le_trans p.len_le p.family.bits_le
  obtain ⟨k, hk⟩ := Nat.dvd_of_mod_eq_zero p.aligned
  have hsize := blockSize_pos p.len
  have hlt : blockSize p.len - 1 < 2 ^ (128 - p.len) := by
    rw [← blockSize_eq]
    omega
  refine BitVec.eq_of_toNat_eq ?_
  rw [BitVec.toNat_or, toNat_ofAddress p.addr_lt, toNat_hostMask hlen, toNat_ofAddress p.last_lt,
    Prefix.last, hk, blockSize_eq] at *
  exact (Nat.two_pow_add_eq_or_of_lt hlt k).symm

end Word

namespace FamilyIndex

variable {index : FamilyIndex} {f : Family} {p q : Prefix} {g : Block} {n last : Nat}

/-! ### The walk in words -/

/-- The range before a prefix, if what is left to cover starts before it. -/
def wordsBefore (next start : Word) : Option (List (Word × Word)) :=
  if next < start then (start.checkedSub 1).map fun finish => [(next, finish)] else some []

/-- The ranges up to `last` between prefixes given by their first address and length. There is no
result if a subtraction goes below zero on the way. -/
def wordGapsFrom (last : Word) : Option Word → List (Word × Nat) → Option (List (Word × Word))
  | none, _ => some []
  | some next, [] => some (if next ≤ last then [(next, last)] else [])
  | some next, (start, len) :: rest => do
    let finish := start ||| Word.hostMask len
    let before ← wordsBefore next start
    let behind ← wordGapsFrom last (if next ≤ finish then finish.checkedAdd 1 else some next) rest
    return before ++ behind

/-- The gaps of a prefix, in words. -/
def wordGaps (index : FamilyIndex) (p : Prefix) : Option (List (Word × Word)) :=
  wordGapsFrom (Word.ofAddress p.last) (some (Word.ofAddress p.addr)) <|
    (index.moreSpecific p).map fun x => (Word.ofAddress x.1.addr, x.1.len)

/-- **A gap ends before a prefix only if there is an address before it.** -/
theorem wordsBefore_eq {next : Nat} (hnext : next < space) (p : Prefix) :
    wordsBefore (Word.ofAddress next) (Word.ofAddress p.addr) =
      some ((if next < p.addr then [⟨next, p.addr - 1⟩] else []).map fun g : Block =>
        (Word.ofAddress g.min, Word.ofAddress g.max)) := by
  rw [wordsBefore]
  simp only [Word.ofAddress_lt_iff hnext p.addr_lt]
  split
  · next hlt =>
    rw [Word.checkedSub_one p.addr_lt (Nat.zero_lt_of_lt hlt)]
    rfl
  · rfl

/-- **No step of the walk in words fails**, and it finds the gaps that the walk along numbers
finds. -/
theorem wordGapsFrom_eq (hlast : last < space) {next : Option Nat}
    (hnext : ∀ m, next = some m → m < space) (ps : List Prefix) :
    wordGapsFrom (Word.ofAddress last) (next.map Word.ofAddress)
        (ps.map fun p => (Word.ofAddress p.addr, p.len)) =
      some ((gapsFrom last next ps).map fun g => (Word.ofAddress g.min, Word.ofAddress g.max)) := by
  fun_induction gapsFrom last next ps with
  | case1 ps => cases ps <;> rfl
  | case2 next hle =>
    have hle' := (Word.ofAddress_le_iff (hnext next rfl) hlast).mpr hle
    show some (if _ then _ else _) = _
    rw [if_pos hle']
    rfl
  | case3 next hgt =>
    have hgt' := mt (Word.ofAddress_le_iff (hnext next rfl) hlast).mp hgt
    show some (if _ then _ else _) = _
    rw [if_neg hgt']
    rfl
  | case4 next p rest ih =>
    have hstart := hnext next rfl
    -- what is left to cover is missing in words where it is missing in numbers
    have hpast : (if Word.ofAddress next ≤ Word.ofAddress p.last then
          (Word.ofAddress p.last).checkedAdd 1 else some (Word.ofAddress next)) =
        (if next ≤ p.last then addressAfter p.last else some next).map Word.ofAddress := by
      simp only [Word.ofAddress_le_iff hstart p.last_lt, Word.checkedAdd_one p.last_lt]
      split <;> rfl
    have hbehind := ih fun m hm => by
      rw [addressAfter] at hm
      split at hm
      · split at hm
        · next hlt => exact Option.some.inj hm ▸ hlt
        · exact absurd hm (by simp)
      · exact hnext m hm
    rw [List.map_cons, Option.map_some, wordGapsFrom]
    simp only [Word.or_hostMask, wordsBefore_eq hstart, hpast, hbehind, Option.bind_eq_bind,
      Option.bind_some, Option.pure_def, List.map_append]

/-! ### The gaps in normal form -/

/-- The walk goes on no earlier than it was, and behind the prefix where that covered it. -/
theorem of_reaches_past {next m : Nat}
    (h : Reaches (if next ≤ m then addressAfter m else some next) n) :
    next ≤ n ∧ (next ≤ m → m < n) := by
  rw [addressAfter] at h
  split at h
  · split at h
    · have hle := reaches_some.mp h
      omega
    · exact absurd h not_reaches_none
  · have hle := reaches_some.mp h
    omega

/-- A gap starts no earlier than the walk does. -/
theorem reaches_of_mem_gapsFrom {next : Option Nat} {ps : List Prefix}
    (hg : g ∈ gapsFrom last next ps) : Reaches next g.min := by
  fun_induction gapsFrom last next ps with
  | case1 ps => exact absurd hg List.not_mem_nil
  | case2 next hle =>
    obtain rfl := List.mem_singleton.mp hg
    exact reaches_some.mpr (Nat.le_refl _)
  | case3 next hgt => exact absurd hg List.not_mem_nil
  | case4 next p rest ih =>
    rcases List.mem_append.mp hg with hg | hg
    · split at hg
      · obtain rfl := List.mem_singleton.mp hg
        exact reaches_some.mpr (Nat.le_refl _)
      · exact absurd hg List.not_mem_nil
    · exact reaches_some.mpr (of_reaches_past (ih hg)).1

/-- **The gaps are in normal form**: none is empty, and between two of them stands a prefix. -/
theorem normal_gapsFrom (last : Nat) (next : Option Nat) (ps : List Prefix) :
    Block.Normal (gapsFrom last next ps) := by
  fun_induction gapsFrom last next ps with
  | case1 ps => exact Block.normal_nil
  | case2 next hle =>
    exact Block.normal_cons.mpr ⟨hle, fun c hc => absurd hc List.not_mem_nil, Block.normal_nil⟩
  | case3 next hgt => exact Block.normal_nil
  | case4 next p rest ih =>
    split
    · next hlt =>
      refine Block.normal_cons.mpr ⟨Nat.le_sub_one_of_lt hlt, fun g hg => ?_, ih⟩
      have hbehind := (of_reaches_past (reaches_of_mem_gapsFrom hg)).2
      have haddr := p.addr_le_last
      show p.addr - 1 + 1 < g.min
      omega
    · exact ih

/-! ### One prefix -/

/-- The walk in words has a result, and its words are the ends of the gaps. -/
theorem OfFamily.wordGaps_eq (h : index.OfFamily f) (hp : p.family = f) :
    (index.wordGaps p).map (List.map fun g => Block.mk g.1.toNat g.2.toNat) =
      some (index.gaps p) := by
  have hstart : ∀ m, some p.addr = some m → m < space := fun m hm => Option.some.inj hm ▸ p.addr_lt
  have hwalk := wordGapsFrom_eq p.last_lt hstart ((index.moreSpecific p).map Prod.fst)
  rw [List.map_map] at hwalk
  refine (congrArg (Option.map _) hwalk).trans (congrArg some ?_)
  rw [List.map_map]
  refine (List.map_congr_left fun g hg => ?_).trans (List.map_id _)
  have hmax := (h.whole_of_mem_gaps hp hg).lt_space
  have hle := (normal_gapsFrom _ _ _).1 g hg
  show Block.mk (Word.ofAddress g.min).toNat (Word.ofAddress g.max).toNat = g
  rw [Word.toNat_ofAddress hmax, Word.toNat_ofAddress (Nat.lt_of_le_of_lt hle hmax)]

/-- **The walk for a prefix** of an index of one family. It meets exactly the prefixes all of whose
addresses are in the given one, in the order of the index. The gaps it leaves are not empty and
ascend, with an address between them; they are whole, lie in the prefix, and have exactly the
addresses of it that no prefix met has. No subtraction of words goes below zero on the way, and no
sum is used that has more than 128 bits. -/
theorem OfFamily.walk_leaves_uncovered (h : index.OfFamily f) (hp : p.family = f) :
    (index.moreSpecific p).Sublist index.entries ∧
    (∀ x, x ∈ index.moreSpecific p ↔ x ∈ index.entries ∧ ∀ n ∈ x.1.block, n ∈ p.block) ∧
    Block.Normal (index.gaps p) ∧
    (∀ g ∈ index.gaps p, f.Whole g ∧ ∀ n ∈ g, n ∈ p.block) ∧
    (∀ n, Block.Holds (index.gaps p) n ↔
      n ∈ p.block ∧ ∀ x ∈ index.entries, (∀ m ∈ x.1.block, m ∈ p.block) → n ∉ x.1.block) ∧
    (index.wordGaps p).map (List.map fun g => Block.mk g.1.toNat g.2.toNat) =
      some (index.gaps p) := by
  refine ⟨moreSpecific_sublist index p, fun x => h.mem_moreSpecific, normal_gapsFrom _ _ _,
    fun g hg => ⟨h.whole_of_mem_gaps hp hg, fun n hn => ?_⟩, fun n => h.holds_gaps,
    h.wordGaps_eq hp⟩
  exact (h.holds_gaps.mp ⟨g, hg, hn⟩).1

/-- An announcement of `255.255.0.0/24`, of its first half and of `255.255.255.0/24`. -/
def crowded : FamilyIndex :=
  build <| [(0xffffff00, 24), (0xffff0000, 24), (0xffff0000, 25)].map fun (addr, len) =>
    ⟨⟨64499, by decide⟩, Prefix.containing .ipv4 (addr <<< 96) len, 8, by decide⟩

/-- The prefix `255.255.0.0/16`. -/
def crowdedRange : Prefix := Prefix.containing .ipv4 (0xffff0000 <<< 96) 16

/-- Two of the announced prefixes start where the prefix asked about starts, and the third one ends
at the last address of all: one gap is left between them. -/
theorem OfFamily.walk_leaves_uncovered_lastAddress :
    crowded.OfFamily .ipv4 ∧ crowdedRange.family = .ipv4 ∧
      (crowded.moreSpecific crowdedRange).map (fun x => x.1.len) = [24, 25, 24] ∧
      (crowded.wordGaps crowdedRange).map (List.map fun g => Block.mk g.1.toNat g.2.toNat) =
        some [⟨0xffff0100 <<< 96, (0xffffff00 <<< 96) - 1⟩] := by
  have hfamily : crowded.OfFamily .ipv4 := by decide +kernel
  have hgaps : crowded.gaps crowdedRange = [⟨0xffff0100 <<< 96, (0xffffff00 <<< 96) - 1⟩] := by
    decide +kernel
  obtain ⟨-, -, -, -, -, hwords⟩ := hfamily.walk_leaves_uncovered (p := crowdedRange) rfl
  rw [hgaps] at hwords
  exact ⟨hfamily, rfl, by decide +kernel, hwords⟩

end FamilyIndex

end RpkiAuthority
