import RpkiAuthority.Proofs.Resource.Read
import RpkiAuthority.Proofs.Text.Pieces

/-!
# What the items of a list are about

A text about resources is a list of items, and an item names AS numbers or addresses of one family.
What it names is said here by the notation alone (`ResourceSet.NamesAsn`,
`ResourceSet.NamesAddress`): a single number, the numbers from the first to the last, or the
addresses that share the first bits with a given one. The reader turns an item into a block, and the
block holds what the item names (`ResourceSet.mem_iff_of_readAsns`,
`ResourceSet.mem_iff_of_readAddresses`).

Items are read one by one, so a text reads if each of its items does
(`Reading.exists_mapM_eq_ok_iff`), and the blocks of the set come from these items and from nothing
else (`ResourceSet.holdsAsn_listed`, `ResourceSet.holdsAddress_listed`).
-/

namespace RpkiAuthority

open Address

namespace Reading

variable {ε α β : Type} {g : α → Reading ε β} {l : List α} {r : List β}

/-- A list is read if each member is. -/
theorem exists_mapM_eq_ok_iff : (∃ r, l.mapM g = .ok r) ↔ ∀ a ∈ l, ∃ b, g a = .ok b := by
  simp only [mapM_eq_ok_iff]
  induction l with
  | nil => exact iff_of_true ⟨[], .nil⟩ fun a ha => absurd ha List.not_mem_nil
  | cons a l ih =>
    rw [List.forall_mem_cons, ← ih]
    constructor
    · rintro ⟨_, h⟩
      obtain ⟨b, r, hb, hr, -⟩ := List.forall₂_cons_left_iff.mp h
      exact ⟨⟨b, hb⟩, r, hr⟩
    · rintro ⟨⟨b, hb⟩, r, hr⟩
      exact ⟨b :: r, .cons hb hr⟩

theorem mapCause_eq_ok {δ : Type} {h : ε → δ} {x : Reading ε α} {a : α} :
    mapCause h x = .ok a ↔ x = .ok a := by
  rcases x with (_ | _) | b
  · exact iff_of_false (fun h => nomatch h) fun h => nomatch h
  · exact iff_of_false (fun h => nomatch h) fun h => nomatch h
  · exact ⟨fun h => congrArg _ (Except.ok.inj h), fun h => congrArg _ (Except.ok.inj h)⟩

end Reading

theorem Asn.eq_of_toNat_eq {a b : Asn} (h : a.toNat = b.toNat) : a = b := by
  cases a
  cases b
  exact (Asn.mk.injEq _ _ _ _).mpr h

theorem Address.lt_space_of_read {f : Family} {l : List Char} {x : Nat}
    (h : Address.read f l = some x) : x < space :=
  Nat.lt_of_le_of_lt (Nat.le_add_right _ _) (whole_of_read h).lt_space

namespace Prefix

variable {f : Family} {l : List Char} {x k n : Nat}

/-- A prefix is cut at the first slash. -/
theorem readParts_eq_some_iff :
    readParts f l = some (x, k) ↔ ∃ addr len, l = addr ++ '/' :: len ∧ '/' ∉ addr ∧
      Address.read f addr = some x ∧ Text.readNat Text.max8 len = some k ∧ k ≤ f.bits := by
  simp only [readParts, bind, Option.bind_eq_some_iff, Prod.exists, Text.cutAt_eq_some_iff,
    Option.ite_none_right_eq_some, Option.some.injEq, Prod.mk.injEq]
  constructor
  · rintro ⟨addr, len, ⟨heq, hslash⟩, y, hy, j, hj, hle, rfl, rfl⟩
    exact ⟨addr, len, heq, hslash, hy, hj, hle⟩
  · rintro ⟨addr, len, heq, hslash, hx, hk, hle⟩
    exact ⟨addr, len, ⟨heq, hslash⟩, x, hx, k, hk, hle, rfl, rfl⟩

/-- The prefix of a length that an address lies in has the addresses with the same first bits. -/
theorem mem_containing_iff (hx : x < space) (hk : k ≤ f.bits) :
    n ∈ (containing f x k).block ↔ n / blockSize k = x / blockSize k := by
  have hlen : (containing f x k).len = k := Nat.min_eq_left hk
  have hmem : x ∈ (containing f x k).block := mem_containing hx
  rw [mem_block_iff_div, hlen] at hmem ⊢
  rw [hmem]

end Prefix

namespace ResourceSet

variable {item : List Char} {f : Family} {b : Block} {a : Asn} {n : Nat} {i : Item} {l : List Item}

/-! ### The notation -/

/-- The family whose addresses an item is about, if it is about addresses: a colon makes them IPv6,
a dot without a colon IPv4. -/
def familyOf? (item : List Char) : Option Family :=
  if item.contains ':' then some .ipv6 else if item.contains '.' then some .ipv4 else none

/-- **The AS numbers that an item names.** -/
inductive NamesAsn (item : List Char) (a : Asn) : Prop where
  /-- A single one. -/
  | single (hf : familyOf? item = none) (hdash : '-' ∉ item) (ha : Asn.read item = .ok a)
  /-- Those from the first to the last. -/
  | range {first last : List Char} {x y : Asn} (hf : familyOf? item = none)
    (heq : item = first ++ '-' :: last) (hdash : '-' ∉ first) (hx : Asn.read first = .ok x)
    (hy : Asn.read last = .ok y) (hle : x.toNat ≤ a.toNat ∧ a.toNat ≤ y.toNat)

/-- **The addresses of a family that an item names**, as numbers of 128 bits. -/
inductive NamesAddress (f : Family) (item : List Char) (n : Nat) : Prop where
  /-- A single one. -/
  | single {x : Nat} (hf : familyOf? item = some f) (hslash : '/' ∉ item) (hdash : '-' ∉ item)
    (hx : Address.read f item = some x) (hle : x ≤ n ∧ n ≤ Block.endOf f x)
  /-- Those from the first to the last. -/
  | range {first last : List Char} {x y : Nat} (hf : familyOf? item = some f)
    (hslash : '/' ∉ item) (heq : item = first ++ '-' :: last) (hdash : '-' ∉ first)
    (hx : Address.read f first = some x) (hy : Address.read f last = some y)
    (hle : x ≤ n ∧ n ≤ Block.endOf f y)
  /-- Those that share their first bits with a given one. -/
  | pfx {addr len : List Char} {x k : Nat} (hf : familyOf? item = some f)
    (heq : item = addr ++ '/' :: len) (hslash : '/' ∉ addr) (hx : Address.read f addr = some x)
    (hk : Text.readNat Text.max8 len = some k) (hbits : k ≤ f.bits)
    (hdiv : n / blockSize k = x / blockSize k)

/-- What an item is read as. -/
inductive IsRead (item : List Char) : Item → Prop where
  | asns {b : Block} (hf : familyOf? item = none) (hb : Block.readAsns item = .ok b)
    (hle : b.min ≤ b.max) : IsRead item (.asns b)
  | addresses {f : Family} {b : Block} (hf : familyOf? item = some f)
    (hb : Block.readAddresses f item = some b) (hle : b.min ≤ b.max) :
    IsRead item (.addresses f b)

/-! ### Reading an item -/

theorem requireOrder_eq_ok {c : Block} :
    requireOrder item b = .ok c ↔ b.min ≤ b.max ∧ b = c := by
  rw [requireOrder]
  split
  · next hlt => exact iff_of_false (by simp) fun h => absurd h.1 (Nat.not_le.mpr hlt)
  · next hge =>
    rw [and_iff_right (Nat.le_of_not_lt hge)]
    exact ⟨Except.ok.inj, fun h => h ▸ rfl⟩

theorem readAddressItem_eq_ok :
    readAddressItem f item = .ok i ↔
      ∃ b, Block.readAddresses f item = some b ∧ b.min ≤ b.max ∧ i = .addresses f b := by
  rw [readAddressItem, Reading.bind_eq_ok]
  simp only [Reading.ofOption_eq_ok, Reading.bind_eq_ok, requireOrder_eq_ok]
  refine exists_congr fun b => and_congr_right fun _ => ⟨?_, ?_⟩
  · rintro ⟨c, ⟨hle, rfl⟩, h⟩
    exact ⟨hle, (Except.ok.inj h).symm⟩
  · rintro ⟨hle, rfl⟩
    exact ⟨b, ⟨hle, rfl⟩, rfl⟩

/-- **An item is read** as its notation says. -/
theorem readItem_eq_ok_iff : readItem item = .ok i ↔ IsRead item i := by
  have haddress : ∀ {f : Family}, familyOf? item = some f →
      (readAddressItem f item = .ok i ↔ IsRead item i) := by
    intro f hf
    rw [readAddressItem_eq_ok]
    constructor
    · rintro ⟨b, hb, hle, rfl⟩
      exact .addresses hf hb hle
    · rintro (⟨hf', -, -⟩ | ⟨hf', hb, hle⟩)
      · exact absurd (hf.symm.trans hf') (by simp)
      · obtain rfl := Option.some.inj (hf.symm.trans hf')
        exact ⟨_, hb, hle, rfl⟩
  rw [readItem]
  split
  · next hcolon => exact haddress (by rw [familyOf?, if_pos hcolon])
  · next hcolon =>
    split
    · next hdot => exact haddress (by rw [familyOf?, if_neg hcolon, if_pos hdot])
    · next hdot =>
      have hf : familyOf? item = none := by rw [familyOf?, if_neg hcolon, if_neg hdot]
      simp only [Reading.bind_eq_ok, Reading.mapCause_eq_ok, requireOrder_eq_ok]
      constructor
      · rintro ⟨b, hb, c, ⟨hle, rfl⟩, h⟩
        obtain rfl := Except.ok.inj h
        exact .asns hf hb hle
      · rintro (⟨-, hb, hle⟩ | ⟨hf', -, -⟩)
        · exact ⟨_, hb, _, ⟨hle, rfl⟩, rfl⟩
        · exact absurd (hf.symm.trans hf') (by simp)

/-- The block of AS numbers that an item is read as holds those that it names. -/
theorem mem_iff_of_readAsns (hf : familyOf? item = none) (hb : Block.readAsns item = .ok b) :
    a.toNat ∈ b ↔ NamesAsn item a := by
  rw [Block.readAsns] at hb
  split at hb
  · next hcut =>
    obtain ⟨x, hx, h⟩ := Reading.bind_eq_ok.mp hb
    obtain rfl := Except.ok.inj h
    rw [Text.cutAt_eq_none_iff] at hcut
    constructor
    · rintro ⟨hle, hge⟩
      obtain rfl := Asn.eq_of_toNat_eq (Nat.le_antisymm hle hge)
      exact .single hf hcut hx
    · rintro (⟨-, -, ha⟩ | ⟨-, heq, -, -, -, -⟩)
      · obtain rfl := Except.ok.inj (hx.symm.trans ha)
        exact ⟨Nat.le_refl _, Nat.le_refl _⟩
      · exact absurd (heq ▸ List.mem_append_right _ List.mem_cons_self) hcut
  · exact nomatch hb
  · next first last hne hcut =>
    obtain ⟨x, hx, h⟩ := Reading.bind_eq_ok.mp hb
    obtain ⟨y, hy, h⟩ := Reading.bind_eq_ok.mp h
    obtain rfl := Except.ok.inj h
    obtain ⟨heq, hdash⟩ := Text.cutAt_eq_some_iff.mp hcut
    constructor
    · exact .range hf heq hdash hx hy
    · rintro (⟨-, hdash', -⟩ | ⟨-, heq', hdash', hx', hy', hle⟩)
      · exact absurd (heq ▸ List.mem_append_right _ List.mem_cons_self) hdash'
      · obtain ⟨rfl, rfl⟩ := Text.eq_of_cut heq hdash heq' hdash'
        obtain rfl := Except.ok.inj (hx.symm.trans hx')
        obtain rfl := Except.ok.inj (hy.symm.trans hy')
        exact hle

/-- The block of addresses that an item is read as holds those that it names. -/
theorem mem_iff_of_readAddresses (hf : familyOf? item = some f)
    (hb : Block.readAddresses f item = some b) : n ∈ b ↔ NamesAddress f item n := by
  rw [Block.readAddresses] at hb
  split at hb
  · next hslash =>
    rw [List.contains_iff_mem] at hslash
    obtain ⟨p, hp, rfl⟩ := Option.map_eq_some_iff.mp hb
    obtain ⟨⟨x, k⟩, hparts, rfl⟩ := Option.map_eq_some_iff.mp hp
    obtain ⟨addr, len, heq, hslash', hx, hk, hbits⟩ := Prefix.readParts_eq_some_iff.mp hparts
    rw [Prefix.mem_containing_iff (Address.lt_space_of_read hx) hbits]
    constructor
    · exact .pfx hf heq hslash' hx hk hbits
    · rintro (⟨-, hno, -⟩ | ⟨-, hno, -⟩ | ⟨-, heq', hslash'', hx', hk', -, hdiv⟩)
      · exact absurd hslash hno
      · exact absurd hslash hno
      · obtain ⟨rfl, rfl⟩ := Text.eq_of_cut heq hslash' heq' hslash''
        obtain rfl := Option.some.inj (hx.symm.trans hx')
        obtain rfl := Option.some.inj (hk.symm.trans hk')
        exact hdiv
  · next hslash =>
    rw [List.contains_iff_mem] at hslash
    split at hb
    · next first last hcut =>
      simp only [bind, Option.bind_eq_some_iff, pure, Option.some.injEq] at hb
      obtain ⟨x, hx, y, hy, rfl⟩ := hb
      obtain ⟨heq, hdash⟩ := Text.cutAt_eq_some_iff.mp hcut
      constructor
      · exact .range hf hslash heq hdash hx hy
      · rintro (⟨-, -, hdash', -, -⟩ | ⟨-, -, heq', hdash', hx', hy', hle⟩ | ⟨-, heq', -⟩)
        · exact absurd (heq ▸ List.mem_append_right _ List.mem_cons_self) hdash'
        · obtain ⟨rfl, rfl⟩ := Text.eq_of_cut heq hdash heq' hdash'
          obtain rfl := Option.some.inj (hx.symm.trans hx')
          obtain rfl := Option.some.inj (hy.symm.trans hy')
          exact hle
        · exact absurd (heq' ▸ List.mem_append_right _ List.mem_cons_self) hslash
    · next hcut =>
      obtain ⟨x, hx, rfl⟩ := Option.map_eq_some_iff.mp hb
      rw [Text.cutAt_eq_none_iff] at hcut
      constructor
      · exact .single hf hslash hcut hx
      · rintro (⟨-, -, -, hx', hle⟩ | ⟨-, -, heq', -⟩ | ⟨-, heq', -⟩)
        · obtain rfl := Option.some.inj (hx.symm.trans hx')
          exact hle
        · exact absurd (heq' ▸ List.mem_append_right _ List.mem_cons_self) hcut
        · exact absurd (heq' ▸ List.mem_append_right _ List.mem_cons_self) hslash

theorem NamesAsn.familyOf_eq (h : NamesAsn item a) : familyOf? item = none := by
  cases h with
  | single hf => exact hf
  | range hf => exact hf

theorem NamesAddress.familyOf_eq (h : NamesAddress f item n) : familyOf? item = some f := by
  cases h with
  | single hf => exact hf
  | range hf => exact hf
  | pfx hf => exact hf

/-! ### The items of a text -/

section

variable {texts : List (List Char)} (h : texts.mapM readItem = .ok l)

include h

/-- The items of a text that reads are what its parts are read as. -/
theorem mem_iff_of_mapM_readItem : i ∈ l ↔ ∃ item ∈ texts, IsRead item i := by
  simp only [Reading.mem_of_mapM_eq_ok h, readItem_eq_ok_iff]

theorem exists_isRead (hitem : item ∈ texts) : ∃ i ∈ l, IsRead item i := by
  obtain ⟨i, hi⟩ := Reading.exists_mapM_eq_ok_iff.mp ⟨l, h⟩ item hitem
  exact ⟨i, (Reading.mem_of_mapM_eq_ok h).mpr ⟨item, hitem, hi⟩, readItem_eq_ok_iff.mp hi⟩

theorem ordered_listed : (listed l).Ordered := by
  have haddresses : ∀ f, Block.Ordered ((listed l).addresses f) := by
    intro f b hb
    obtain ⟨item, -, hread⟩ := (mem_iff_of_mapM_readItem h).mp (mem_addresses_listed.mp hb)
    cases hread with
    | addresses _ _ hle => exact hle
  refine ⟨fun b hb => ?_, haddresses .ipv4, haddresses .ipv6⟩
  obtain ⟨item, -, hread⟩ := (mem_iff_of_mapM_readItem h).mp (mem_asns_listed.mp hb)
  cases hread with
  | asns _ _ hle => exact hle

/-- **The blocks of AS numbers hold what the items name.** -/
theorem holdsAsn_listed : (listed l).HoldsAsn a ↔ ∃ item ∈ texts, NamesAsn item a := by
  constructor
  · rintro ⟨b, hb, hab⟩
    obtain ⟨item, hitem, hread⟩ := (mem_iff_of_mapM_readItem h).mp (mem_asns_listed.mp hb)
    cases hread with
    | asns hf hread => exact ⟨item, hitem, (mem_iff_of_readAsns hf hread).mp hab⟩
  · rintro ⟨item, hitem, hnames⟩
    obtain ⟨i, hi, hread⟩ := exists_isRead h hitem
    cases hread with
    | asns hf hread =>
      exact ⟨_, mem_asns_listed.mpr hi, (mem_iff_of_readAsns hf hread).mpr hnames⟩
    | addresses hf => exact absurd (hnames.familyOf_eq.symm.trans hf) (by simp)

/-- **The blocks of addresses hold what the items name.** -/
theorem holdsAddress_listed :
    (listed l).HoldsAddress f n ↔ ∃ item ∈ texts, NamesAddress f item n := by
  constructor
  · rintro ⟨b, hb, hnb⟩
    obtain ⟨item, hitem, hread⟩ := (mem_iff_of_mapM_readItem h).mp (mem_addresses_listed.mp hb)
    cases hread with
    | addresses hf hread => exact ⟨item, hitem, (mem_iff_of_readAddresses hf hread).mp hnb⟩
  · rintro ⟨item, hitem, hnames⟩
    obtain ⟨i, hi, hread⟩ := exists_isRead h hitem
    cases hread with
    | asns hf => exact absurd (hnames.familyOf_eq.symm.trans hf) (by simp)
    | addresses hf hread =>
      obtain rfl := Option.some.inj (hnames.familyOf_eq.symm.trans hf)
      exact ⟨_, mem_addresses_listed.mpr hi, (mem_iff_of_readAddresses hf hread).mpr hnames⟩

end

end ResourceSet

end RpkiAuthority
