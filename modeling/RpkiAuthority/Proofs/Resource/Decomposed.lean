import RpkiAuthority.Proofs.Resource.Nested

/-!
# The prefixes that make up a range

A range is taken apart from its start, each time by the largest prefix that starts there and fits.
Nothing looks ahead, and still no prefix of the range is cut in two: the pieces are the
**largest** prefixes of the range (`Prefix.len_le_of_mem_decompose`). A larger one around a piece
would start where the piece starts, where it would have been taken, or before, where it would have
covered the start of the range.
-/

namespace RpkiAuthority

open Address

namespace Prefix

variable {f : Family} {first last : Nat}

/-- Whether a prefix of the length starts at one address and ends no later than another. -/
def Fits (first last len : Nat) : Prop :=
  first % blockSize len = 0 ∧ first + (blockSize len - 1) ≤ last

/-- In a whole range at least a single address fits. -/
theorem fits_bits (h : f.Whole ⟨first, last⟩) (hle : first ≤ last) : Fits first last f.bits := by
  refine ⟨h.start, ?_⟩
  have hstart : blockSize f.bits ∣ first := Nat.dvd_of_mod_eq_zero h.start
  have hfinish : blockSize f.bits ∣ last + 1 := Nat.dvd_of_mod_eq_zero h.finish
  have hdvd : blockSize f.bits ∣ last + 1 - first := Nat.dvd_sub hfinish hstart
  have hle' : blockSize f.bits ≤ last + 1 - first := Nat.le_of_dvd (by omega) hdvd
  have hpos := blockSize_pos f.bits
  omega

/-- **The fitting length** is the least length that fits. -/
theorem fittingLength_spec (h : f.Whole ⟨first, last⟩) (hle : first ≤ last) :
    fittingLength f first last ≤ f.bits ∧ Fits first last (fittingLength f first last) ∧
      ∀ len, Fits first last len → len ≤ f.bits → fittingLength f first last ≤ len := by
  have hiff : ∀ len, (first % blockSize len == 0 &&
      decide (first + (blockSize len - 1) ≤ last)) = true ↔ Fits first last len := by
    intro len
    rw [Bool.and_eq_true, beq_iff_eq, decide_eq_true_eq, Fits]
  rw [fittingLength]
  cases hfind : (List.range (f.bits + 1)).find? fun len =>
      first % blockSize len == 0 && decide (first + (blockSize len - 1) ≤ last) with
  | none =>
    have hnone := List.find?_eq_none.mp hfind f.bits (List.mem_range.mpr (Nat.lt_succ_self _))
    exact absurd ((hiff _).mpr (fits_bits h hle)) hnone
  | some len =>
    obtain ⟨hp, hmem, hmin⟩ := List.find?_range_eq_some.mp hfind
    refine ⟨Nat.le_of_lt_succ (List.mem_range.mp hmem), (hiff len).mp hp, fun l hl _ => ?_⟩
    refine Nat.le_of_not_lt fun hlt => ?_
    have hno := hmin l hlt
    rw [(hiff l).mpr hl] at hno
    exact absurd hno (by simp)

/-! ### The pieces -/

variable {p q : Prefix} {m n : Nat}

/-- At an aligned address starts the prefix of that length. -/
theorem containing_of_aligned {len : Nat} (hlt : first < space) (hlen : len ≤ f.bits)
    (h : first % blockSize len = 0) :
    (containing f first len).addr = first ∧ (containing f first len).len = len := by
  have hmin : min len f.bits = len := Nat.min_eq_left hlen
  refine ⟨?_, hmin⟩
  show first % space / blockSize (min len f.bits) * blockSize (min len f.bits) = first
  rw [hmin, Nat.mod_eq_of_lt hlt]
  exact Nat.div_mul_cancel (Nat.dvd_of_mod_eq_zero h)

/-- What is left of a whole range after its first piece is whole. -/
theorem whole_rest (h : f.Whole ⟨first, last⟩) {len : Nat} (hlen : len ≤ f.bits) :
    f.Whole ⟨first + blockSize len, last⟩ where
  start := Nat.mod_eq_zero_of_dvd <|
    Nat.dvd_add (Nat.dvd_of_mod_eq_zero h.start) (blockSize_dvd hlen)
  finish := h.finish
  lt_space := h.lt_space

/-- The first piece of a range starts where the range starts and ends within it, and no prefix that
does so is larger. -/
structure IsFirstPiece (f : Family) (first last : Nat) (p : Prefix) : Prop where
  addr_eq : p.addr = first
  last_le : p.last ≤ last
  len_le : ∀ q : Prefix, q.family = f → q.addr = first → q.last ≤ last → p.len ≤ q.len

theorem isFirstPiece_containing (h : f.Whole ⟨first, last⟩) (hle : first ≤ last) :
    IsFirstPiece f first last (containing f first (fittingLength f first last)) ∧
      (containing f first (fittingLength f first last)).len = fittingLength f first last := by
  obtain ⟨hbits, ⟨haligned, hend⟩, hleast⟩ := fittingLength_spec h hle
  obtain ⟨haddr, hlen⟩ :=
    containing_of_aligned (Nat.lt_of_le_of_lt hle h.lt_space) hbits haligned
  refine ⟨⟨haddr, ?_, ?_⟩, hlen⟩
  · rw [Prefix.last, haddr, hlen]
    exact hend
  · intro q hf hq hqlast
    rw [hlen]
    refine hleast q.len ⟨hq ▸ q.aligned, ?_⟩ (hf ▸ q.len_le)
    rw [← hq]
    exact hqlast

/-- **A prefix within the range that shares an address with the first piece** is no larger. -/
theorem IsFirstPiece.len_le_of_mem (hp : IsFirstPiece f first last p) (hq : q.family = f)
    (hin : ∀ m ∈ q.block, first ≤ m ∧ m ≤ last) (hpn : n ∈ p.block) (hqn : n ∈ q.block) :
    p.len ≤ q.len := by
  refine Nat.le_of_not_lt fun hlt => ?_
  -- a larger one would reach over the whole piece, and so would start where the range starts
  have hstart : p.addr ∈ q.block := nested (Nat.le_of_lt hlt) hpn hqn p.addr_mem_block
  have haddr : q.addr = first :=
    Nat.le_antisymm (hp.addr_eq ▸ hstart.1) (hin q.addr q.addr_mem_block).1
  have hle := hp.len_le q hq haddr (hin q.last q.last_mem_block).2
  omega

theorem family_of_mem_decompose (hp : p ∈ decompose f first last) : p.family = f := by
  fun_induction decompose f first last with
  | case1 first hle len ih =>
    rcases List.mem_cons.mp hp with rfl | hp
    · rfl
    · exact ih hp
  | case2 first hgt => exact absurd hp List.not_mem_nil

/-- The pieces lie in the range. -/
theorem bounds_of_mem_decompose (h : f.Whole ⟨first, last⟩) (hp : p ∈ decompose f first last)
    (hn : n ∈ p.block) : first ≤ n ∧ n ≤ last := by
  fun_induction decompose f first last with
  | case1 first hle len ih =>
    obtain ⟨hpiece, -⟩ := isFirstPiece_containing h hle
    have hbits := (fittingLength_spec h hle).1
    rcases List.mem_cons.mp hp with rfl | hp
    · exact ⟨hpiece.addr_eq ▸ hn.1, Nat.le_trans hn.2 hpiece.last_le⟩
    · obtain ⟨hfirst, hlast⟩ := ih (whole_rest h hbits) hp
      exact ⟨Nat.le_trans (Nat.le_add_right _ _) hfirst, hlast⟩
  | case2 first hgt => exact absurd hp List.not_mem_nil

/-- The pieces make up the range. -/
theorem exists_mem_decompose (h : f.Whole ⟨first, last⟩) (hn : first ≤ n ∧ n ≤ last) :
    ∃ p ∈ decompose f first last, n ∈ p.block := by
  fun_induction decompose f first last with
  | case1 first hle len ih =>
    obtain ⟨hpiece, hlen⟩ := isFirstPiece_containing h hle
    have hbits := (fittingLength_spec h hle).1
    rcases Nat.lt_or_ge n (first + blockSize len) with hlt | hge
    · refine ⟨_, List.mem_cons_self, mem_block.mpr ?_⟩
      rw [hpiece.addr_eq, hlen]
      exact ⟨hn.1, hlt⟩
    · obtain ⟨p, hp, hpn⟩ := ih (whole_rest h hbits) ⟨hge, hn.2⟩
      exact ⟨p, List.mem_cons_of_mem _ hp, hpn⟩
  | case2 first hgt => exact absurd (Nat.le_trans hn.1 hn.2) hgt

/-- **The pieces are the largest prefixes of the range**: a prefix within the range is no larger
than a piece it shares an address with. -/
theorem len_le_of_mem_decompose (h : f.Whole ⟨first, last⟩) (hp : p ∈ decompose f first last)
    (hq : q.family = f) (hin : ∀ m ∈ q.block, first ≤ m ∧ m ≤ last) (hpn : n ∈ p.block)
    (hqn : n ∈ q.block) : p.len ≤ q.len := by
  fun_induction decompose f first last with
  | case1 first hle len ih =>
    obtain ⟨hpiece, hlen⟩ := isFirstPiece_containing h hle
    have hbits := (fittingLength_spec h hle).1
    rcases List.mem_cons.mp hp with rfl | hp
    · exact hpiece.len_le_of_mem hq hin hpn hqn
    · have hrest := whole_rest h hbits
      refine ih hrest hp fun m hm => ⟨?_, (hin m hm).2⟩
      have hpast : first + blockSize len ≤ n := (bounds_of_mem_decompose hrest hp hpn).1
      refine Nat.le_of_not_lt fun hlt => ?_
      -- the other prefix has addresses in the first piece and behind it, and so is larger
      have hin' := hin m hm
      have hmem : m ∈ (containing f first len).block := by
        rw [mem_block, hpiece.addr_eq, hlen]
        exact ⟨hin'.1, hlt⟩
      have hle' := hpiece.len_le_of_mem hq hin hmem hm
      have hmem' := nested hle' hm hmem hqn
      rw [mem_block, hpiece.addr_eq, hlen] at hmem'
      exact absurd hmem'.2 (Nat.not_lt.mpr hpast)
  | case2 first hgt => exact absurd hp List.not_mem_nil

end Prefix

/-! ### Numbers in a row -/

namespace Block

variable {l : List Block} {b c : Block}

/-- Two blocks are the same, or a number is missing between them. -/
def SameOrApart (b c : Block) : Prop := b = c ∨ b.max + 1 < c.min ∨ c.max + 1 < b.min

theorem Normal.sameOrApart (h : Normal l) (hb : b ∈ l) (hc : c ∈ l) : SameOrApart b c :=
  List.Pairwise.forall_of_forall_of_flip (R := SameOrApart) (fun _ _ => Or.inl rfl)
    (h.2.imp fun hlt => Or.inr (Or.inl hlt)) (h.2.imp fun hlt => Or.inr (Or.inr hlt)) hb hc

/-- Only one block holds a number. -/
theorem Normal.eq_of_mem (h : Normal l) (hb : b ∈ l) (hc : c ∈ l) {n : Nat} (hnb : n ∈ b)
    (hnc : n ∈ c) : b = c := by
  rw [mem_iff] at hnb hnc
  rcases h.sameOrApart hb hc with heq | hlt | hgt
  · exact heq
  · omega
  · omega

/-- **Numbers in a row** that are all held are held by one block. -/
theorem Normal.exists_block (h : Normal l) {first last : Nat} (hle : first ≤ last)
    (hin : ∀ m, first ≤ m ∧ m ≤ last → Holds l m) :
    ∃ b ∈ l, ∀ m, first ≤ m ∧ m ≤ last → m ∈ b := by
  obtain ⟨b, hb, hfirst⟩ := hin first ⟨Nat.le_refl _, hle⟩
  refine ⟨b, hb, fun m hm => ⟨Nat.le_trans hfirst.1 hm.1, Nat.le_trans hm.2 ?_⟩⟩
  refine Nat.le_of_not_lt fun hlt => ?_
  -- the number after the block would be in another one
  obtain ⟨c, hc, hnext⟩ := hin (b.max + 1) ⟨Nat.le_succ_of_le hfirst.2, hlt⟩
  rw [mem_iff] at hfirst hnext
  rcases h.sameOrApart hb hc with rfl | hbc | hcb
  · omega
  · omega
  · omega

end Block

/-! ### The prefixes of a set -/

namespace ResourceSet

variable {s : ResourceSet} {f : Family} {p q : Prefix} {n : Nat}

/-- The blocks of addresses are whole for their families. -/
def Whole (s : ResourceSet) : Prop := ∀ f, ∀ b ∈ s.addresses f, f.Whole b

/-- The address is in one of the blocks of its family. -/
def HoldsAddress (s : ResourceSet) (f : Family) (n : Nat) : Prop := Block.Holds (s.addresses f) n

/-- All addresses of the prefix are in the set. -/
def Includes (s : ResourceSet) (p : Prefix) : Prop := ∀ n ∈ p.block, s.HoldsAddress p.family n

theorem Normal.addresses (h : s.Normal) (f : Family) : Block.Normal (s.addresses f) := by
  cases f with
  | ipv4 => exact h.2.1
  | ipv6 => exact h.2.2

/-- The set of a prefix is in normal form. -/
theorem normal_ofPrefix (p : Prefix) : (ofPrefix p).Normal := by
  have hnil : Block.Normal [] := ⟨fun b hb => absurd hb List.not_mem_nil, .nil⟩
  have hblock : Block.Normal [p.block] :=
    ⟨fun b hb => List.mem_singleton.mp hb ▸ p.addr_le_last, List.pairwise_singleton _ _⟩
  rw [ofPrefix]
  cases p.family with
  | ipv4 => exact ⟨hnil, hblock, hnil⟩
  | ipv6 => exact ⟨hnil, hnil, hblock⟩

/-- The set of a prefix holds the addresses of the prefix. -/
theorem addresses_ofPrefix (p : Prefix) : (ofPrefix p).addresses p.family = [p.block] := by
  rw [ofPrefix]
  cases p.family <;> rfl

theorem includes_ofPrefix (hf : q.family = p.family) :
    (ofPrefix p).Includes q ↔ ∀ n ∈ q.block, n ∈ p.block := by
  simp only [Includes, HoldsAddress, hf, addresses_ofPrefix, Block.holds_cons, Block.not_holds_nil,
    or_false]

theorem mem_prefixes :
    p ∈ s.prefixes f ↔ ∃ b ∈ s.addresses f, p ∈ Prefix.decompose f b.min b.max :=
  List.mem_flatMap

theorem family_of_mem_prefixes (hp : p ∈ s.prefixes f) : p.family = f := by
  obtain ⟨b, -, hp⟩ := mem_prefixes.mp hp
  exact Prefix.family_of_mem_decompose hp

theorem holdsAddress_of_mem_prefixes (hw : s.Whole) (hp : p ∈ s.prefixes f) (hn : n ∈ p.block) :
    s.HoldsAddress f n := by
  obtain ⟨b, hb, hp⟩ := mem_prefixes.mp hp
  exact ⟨b, hb, Prefix.bounds_of_mem_decompose (hw f b hb) hp hn⟩

theorem exists_mem_prefixes (hw : s.Whole) (hn : s.HoldsAddress f n) :
    ∃ p ∈ s.prefixes f, n ∈ p.block := by
  obtain ⟨b, hb, hn⟩ := hn
  obtain ⟨p, hp, hpn⟩ := Prefix.exists_mem_decompose (hw f b hb) hn
  exact ⟨p, mem_prefixes.mpr ⟨b, hb, hp⟩, hpn⟩

/-- **The prefixes of a set in normal form are the largest ones** in it. -/
theorem len_le_of_mem_prefixes (hs : s.Normal) (hw : s.Whole) (hp : p ∈ s.prefixes f)
    (hq : q.family = f) (hin : s.Includes q) (hpn : n ∈ p.block) (hqn : n ∈ q.block) :
    p.len ≤ q.len := by
  subst hq
  obtain ⟨b, hb, hp⟩ := mem_prefixes.mp hp
  obtain ⟨c, hc, hqc⟩ := (hs.addresses q.family).exists_block
    (Nat.le_trans hqn.1 hqn.2 : q.addr ≤ q.last) hin
  have hbn : n ∈ b := Prefix.bounds_of_mem_decompose (hw _ b hb) hp hpn
  obtain rfl := (hs.addresses q.family).eq_of_mem hb hc hbn (hqc n hqn)
  exact Prefix.len_le_of_mem_decompose (hw _ b hb) hp rfl hqc hpn hqn

end ResourceSet

end RpkiAuthority
