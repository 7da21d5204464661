import Mathlib.Algebra.Group.Nat.Defs
import RpkiAuthority.Proofs.Resource.Collected

/-!
# Prefixes are nested or apart

The addresses of a prefix are those with the same quotient by the size of the prefix
(`Prefix.mem_block_iff_div`), and sizes divide each other. So of two prefixes that share an
address the longer one lies in the shorter one (`Prefix.nested`), and there is one prefix of each
length for an address (`Prefix.eq_containing`).

A range of addresses is **whole** for a family (`Family.Whole`) if it starts at the start of an
address of the family and ends at the end of one. For IPv4, whose addresses stand in the upper
bits, that means that the lower bits are all clear at the start and all set at the end.
-/

namespace RpkiAuthority

namespace Address

theorem blockSize_eq (len : Nat) : blockSize len = 2 ^ (128 - len) := Nat.one_shiftLeft _

/-- The size of a longer prefix divides that of a shorter one. -/
theorem blockSize_dvd {a b : Nat} (h : a ≤ b) : blockSize b ∣ blockSize a := by
  rw [blockSize_eq, blockSize_eq]
  exact Nat.pow_dvd_pow 2 (by omega)

theorem space_eq : space = 2 ^ 128 := Nat.one_shiftLeft 128

theorem blockSize_dvd_space (len : Nat) : blockSize len ∣ space := by
  rw [blockSize_eq, space_eq]
  exact Nat.pow_dvd_pow 2 (Nat.sub_le 128 len)

theorem blockSize_lt {a b : Nat} (h : a < b) (hb : b ≤ 128) : blockSize b < blockSize a := by
  rw [blockSize_eq, blockSize_eq]
  exact Nat.pow_lt_pow_right (by decide) (by omega)

end Address

open Address

namespace Prefix

variable {p q : Prefix} {m n : Nat}

theorem mem_block : n ∈ p.block ↔ p.addr ≤ n ∧ n < p.addr + blockSize p.len := by
  have hpos := blockSize_pos p.len
  show p.addr ≤ n ∧ n ≤ p.addr + (blockSize p.len - 1) ↔ _
  omega

theorem addr_mem_block (p : Prefix) : p.addr ∈ p.block :=
  mem_block.mpr ⟨Nat.le_refl _, Nat.lt_add_of_pos_right (blockSize_pos p.len)⟩

theorem addr_le_last (p : Prefix) : p.addr ≤ p.last := Nat.le_add_right _ _

theorem last_mem_block (p : Prefix) : p.last ∈ p.block := ⟨p.addr_le_last, Nat.le_refl _⟩

theorem last_add_one (p : Prefix) : p.last + 1 = p.addr + blockSize p.len := by
  have hpos := blockSize_pos p.len
  rw [last]
  omega

/-- **The addresses of a prefix** are those that share its quotient. -/
theorem mem_block_iff_div : n ∈ p.block ↔ n / blockSize p.len = p.addr / blockSize p.len := by
  have hpos := blockSize_pos p.len
  have hdvd : blockSize p.len ∣ p.addr := Nat.dvd_of_mod_eq_zero p.aligned
  rw [mem_block, Nat.div_eq_iff hpos, Nat.div_mul_cancel hdvd]
  omega

/-- **Of two prefixes that share an address, the longer one lies in the shorter one.** -/
theorem nested (h : q.len ≤ p.len) (hp : n ∈ p.block) (hq : n ∈ q.block) (hm : m ∈ p.block) :
    m ∈ q.block := by
  obtain ⟨k, hk⟩ := blockSize_dvd h
  rw [mem_block_iff_div] at hp hq hm ⊢
  rw [← hq, hk, ← Nat.div_div_eq_div_mul, ← Nat.div_div_eq_div_mul, hm, hp]

/-- **All addresses of a prefix are in another one** if its first one is and it is no shorter. -/
theorem subset_iff : (∀ m ∈ p.block, m ∈ q.block) ↔ q.len ≤ p.len ∧ p.addr ∈ q.block := by
  constructor
  · intro h
    have haddr := h p.addr p.addr_mem_block
    refine ⟨Nat.le_of_not_lt fun hlt => ?_, haddr⟩
    -- a shorter one has more addresses
    have hsize := blockSize_lt hlt (Nat.le_trans q.len_le q.family.bits_le)
    have hlast := h p.last p.last_mem_block
    have hend := last_add_one p
    rw [mem_block] at haddr hlast
    omega
  · rintro ⟨hlen, haddr⟩ m hm
    exact nested hlen p.addr_mem_block haddr hm

/-- Prefixes of one length that share an address are the same. -/
theorem eq_of_mem (hf : p.family = q.family) (hl : p.len = q.len) (hp : n ∈ p.block)
    (hq : n ∈ q.block) : p = q := by
  have hdvd : blockSize p.len ∣ p.addr := Nat.dvd_of_mod_eq_zero p.aligned
  have hdvd' : blockSize q.len ∣ q.addr := Nat.dvd_of_mod_eq_zero q.aligned
  rw [mem_block_iff_div] at hp hq
  have haddr : p.addr = q.addr := by
    rw [← Nat.div_mul_cancel hdvd, ← hp, ← Nat.div_mul_cancel hdvd', ← hq, hl]
  cases p; cases q
  simp_all

/-- A prefix ends within the space of addresses. -/
theorem last_lt (p : Prefix) : p.last < space := by
  obtain ⟨k, hk⟩ := blockSize_dvd_space p.len
  obtain ⟨a, ha⟩ := Nat.dvd_of_mod_eq_zero p.aligned
  have hlt := p.addr_lt
  rw [hk, ha] at hlt
  have hak : a + 1 ≤ k := Nat.lt_of_mul_lt_mul_left hlt
  have hle : blockSize p.len * (a + 1) ≤ blockSize p.len * k := Nat.mul_le_mul_left _ hak
  have hlast := last_add_one p
  rw [Nat.mul_succ, ← ha, ← hk] at hle
  omega

theorem lt_space (h : n ∈ p.block) : n < space :=
  Nat.lt_of_le_of_lt h.2 p.last_lt

theorem mem_containing {f : Family} {a len : Nat} (ha : a < space) :
    a ∈ (containing f a len).block := by
  rw [mem_block_iff_div]
  have haddr : (containing f a len).addr =
      a / blockSize (containing f a len).len * blockSize (containing f a len).len := by
    show a % space / blockSize (min len f.bits) * blockSize (min len f.bits) = _
    rw [Nat.mod_eq_of_lt ha]
    rfl
  rw [haddr, Nat.mul_div_cancel _ (blockSize_pos _)]

/-- **There is one prefix of each length for an address.** -/
theorem eq_containing (h : n ∈ p.block) : p = containing p.family n p.len :=
  eq_of_mem rfl (Nat.min_eq_left p.len_le).symm h (mem_containing (lt_space h))

end Prefix

/-! ### Whole ranges -/

/-- The range starts at the start of an address of the family and ends at the end of one. -/
structure Family.Whole (f : Family) (b : Block) : Prop where
  start : b.min % blockSize f.bits = 0
  finish : (b.max + 1) % blockSize f.bits = 0
  lt_space : b.max < space

/-- Prefixes are whole. -/
theorem Prefix.whole (p : Prefix) : p.family.Whole p.block where
  start := Nat.mod_eq_zero_of_dvd <|
    Nat.dvd_trans (blockSize_dvd p.len_le) (Nat.dvd_of_mod_eq_zero p.aligned)
  finish := by
    show (p.last + 1) % _ = 0
    rw [last_add_one]
    refine Nat.mod_eq_zero_of_dvd (Nat.dvd_add ?_ (blockSize_dvd p.len_le))
    exact Nat.dvd_trans (blockSize_dvd p.len_le) (Nat.dvd_of_mod_eq_zero p.aligned)
  lt_space := p.last_lt

end RpkiAuthority
