import RpkiAuthority.Proofs.Json.Written
import RpkiAuthority.Proofs.Resource.AddressText
import RpkiAuthority.Proofs.Resource.Answers
import RpkiAuthority.Proofs.Resource.Bridging
import RpkiAuthority.Stored.Resource

/-!
# Sets that are written are read back

A canonical set is written block by block, and every block is read back from what was written for
it, whatever its shape: a single number, a prefix or a range (`Block.readAsns_asnText`,
`Block.readAddresses_addressText`). Written blocks are made of letters, digits and signs that
neither separate items nor are trimmed (`ResourceSet.IsItemSign`), so that cutting the text gives
them again (`ResourceSet.items_text`). They come in the order of the lists, and lists in normal form
are collected as they are (`Block.collect_eq_self`). Together that is `ResourceSet.read_text`.
Single prefixes are read back in the same way (`Prefix.parse_text`).

Sets are stored as their text. It has no character that would have to be escaped, so its JSON form
is the text between quotes (`Json.parse_quoted`).
-/

namespace RpkiAuthority

open Text Address

/-! ### AS numbers -/

namespace Asn

theorem toList_text (a : Asn) : a.text.toList = 'A' :: 'S' :: a.toNat.repr.toList := by
  rw [text, String.toList_append]
  rfl

/-- The letters are dropped if something follows them. -/
theorem dropLetters_letters {l : List Char} (h : l ≠ []) :
    dropLetters ('A' :: 'S' :: l) = .ok l := by
  have hsize : ¬(String.ofList ('A' :: 'S' :: l)).utf8ByteSize ≤ 2 := by
    have happend : String.ofList ('A' :: 'S' :: l) = "AS" ++ String.ofList l := by
      rw [← String.toList_inj, String.toList_append, String.toList_ofList, String.toList_ofList]
      simp
    have hpos : (String.ofList l).utf8ByteSize ≠ 0 := by
      rw [Ne, String.utf8ByteSize_eq_zero_iff, ← String.toList_inj, String.toList_ofList]
      exact h
    rw [happend, String.utf8ByteSize_append]
    have htwo : "AS".utf8ByteSize = 2 := rfl
    omega
  rw [dropLetters, if_neg hsize]
  rfl

/-- The digits of an AS number are read back. -/
theorem ofDigits?_repr (a : Asn) : ofDigits? a.toNat.repr.toList = some a := by
  have hle : a.toNat ≤ max32 := Nat.le_of_lt_succ a.isLt
  rw [ofDigits?, readNat_repr hle, Option.bind_some, ofNat?, dif_pos a.isLt]

/-- **AS numbers are read back.** -/
theorem read_text (a : Asn) : read a.text.toList = .ok a := by
  have hne : a.toNat.repr.toList ≠ [] := by
    rw [Nat.toList_repr]
    exact Nat.toDigits_ne_nil
  rw [toList_text, read, dropLetters_letters hne]
  exact Reading.ofOption_eq_ok.mpr (ofDigits?_repr a)

theorem isAlphanum_of_mem_text {a : Asn} {c : Char} (h : c ∈ a.text.toList) :
    c.isAlphanum = true := by
  rw [toList_text] at h
  rcases List.mem_cons.mp h with rfl | h
  · rfl
  · rcases List.mem_cons.mp h with rfl | h
    · rfl
    · exact isAlphanum_of_mem_repr h

/-- Digits are taken as they are. -/
theorem dropLetters_of_isDigit {l : List Char} (h : ∀ c ∈ l, c.isDigit = true) :
    dropLetters l = .ok l := by
  have hdigit : ∀ c : Char, c.isDigit = true → c.val ≤ 57 := by
    intro c hc
    simp only [Char.isDigit, Bool.and_eq_true, decide_eq_true_eq] at hc
    exact hc.2
  have hsize : ∀ c : Char, c.isDigit = true → c.utf8Size = 1 := fun c hc =>
    Char.utf8Size_eq_one_iff.mpr (UInt32.le_trans (hdigit c hc) (by decide))
  have hlower : ∀ c : Char, c.isDigit = true → c.toLower ≠ 'a' := by
    intro c hc heq
    have hsmall : ¬('A'.val ≤ c.val) :=
      UInt32.not_le.mpr (UInt32.lt_of_le_of_lt (hdigit c hc) (by decide))
    have hsame : c.toLower = c := dif_neg fun h => hsmall h.1
    exact absurd (heq ▸ hsame ▸ hc) (by decide)
  rcases l with _ | ⟨c, _ | ⟨d, rest⟩⟩
  · rfl
  · have hshort : (String.ofList [c]).utf8ByteSize ≤ 2 := by
      rw [← String.singleton_eq_ofList, String.utf8ByteSize_singleton, hsize c (h c (by simp))]
      decide
    rw [dropLetters, if_pos hshort]
    exact fun c' d' rest => nofun
  · have hletters : ¬(c.toLower = 'a' ∧ d.toLower = 's') :=
      fun heq => hlower c (h c (by simp)) heq.1
    rw [dropLetters, if_pos (hsize c (h c (by simp))), if_pos (hsize d (h d (by simp))),
      if_neg hletters, ite_self]

/-- **The spellings of an AS number**: with the letters before it and without them. -/
inductive Spelling (a : Asn) : String → Prop where
  | text : Spelling a a.text
  | digits : Spelling a a.toNat.repr

/-- AS numbers are read back, however they are spelled. -/
theorem Spelling.read {a : Asn} {t : String} (h : a.Spelling t) : read t.toList = .ok a := by
  cases h with
  | text => exact read_text a
  | digits =>
    have hdigits : ∀ c ∈ a.toNat.repr.toList, c.isDigit = true := by
      rw [Nat.toList_repr]
      exact fun c => Nat.isDigit_of_mem_toDigits (by decide) (Nat.le_refl 10)
    rw [Asn.read, dropLetters_of_isDigit hdigits]
    exact Reading.ofOption_eq_ok.mpr (ofDigits?_repr a)

theorem Spelling.ne_nil {a : Asn} {t : String} (h : a.Spelling t) : t.toList ≠ [] := by
  intro hnil
  have hread := h.read
  rw [hnil] at hread
  exact nomatch hread

theorem Spelling.isAlphanum {a : Asn} {t : String} {c : Char} (h : a.Spelling t)
    (hc : c ∈ t.toList) : c.isAlphanum = true := by
  cases h with
  | text => exact isAlphanum_of_mem_text hc
  | digits => exact isAlphanum_of_mem_repr hc

end Asn

/-! ### Blocks of addresses -/

namespace Block

variable {f : Family} {b : Block} {c : Char}

/-- What the reader makes of the first and the last address of a whole block. -/
theorem whole_ends (h : f.Whole b) :
    f.addressOf b.min = b.min ∧ endOf f (f.addressOf b.max) = b.max := by
  have hpos := blockSize_pos f.bits
  have hstart : f.addressOf b.min = b.min := Nat.div_mul_cancel (Nat.dvd_of_mod_eq_zero h.start)
  refine ⟨hstart, ?_⟩
  obtain ⟨k, hk⟩ := Nat.dvd_of_mod_eq_zero h.finish
  cases k with
  | zero => exact absurd hk (by simp)
  | succ k =>
    have hlast : b.max = blockSize f.bits * k + (blockSize f.bits - 1) := by
      rw [Nat.mul_succ] at hk
      omega
    have hdiv : b.max / blockSize f.bits = k := by
      rw [hlast, Nat.mul_add_div hpos, Nat.div_eq_of_lt (by omega), Nat.add_zero]
    rw [endOf, Family.addressOf, hdiv, Nat.mul_comm k, ← hlast]

/-- **The prefix length of a block** is that of the prefix whose addresses make it up. -/
theorem prefixLength?_eq_some {len : Nat} (h : prefixLength? f b = some len) :
    len ≤ f.bits ∧ b.min % blockSize len = 0 ∧ b.max = b.min + (blockSize len - 1) := by
  rw [prefixLength?, List.find?_range_eq_some] at h
  obtain ⟨hp, hmem, -⟩ := h
  rw [Bool.and_eq_true, beq_iff_eq, beq_iff_eq] at hp
  exact ⟨Nat.le_of_lt_succ (List.mem_range.mp hmem), hp⟩

/-- Addresses have neither slashes nor dashes. -/
theorem not_mem_text {n : Nat} :
    '/' ∉ (Address.text f n).toList ∧ '-' ∉ (Address.text f n).toList :=
  ⟨fun h => (isSign_of_mem_text h).spec.2.2.1 rfl, fun h => (isSign_of_mem_text h).spec.2.2.2 rfl⟩

/-- An address and a length are read back. -/
theorem readParts_spelling {addr len : Nat} {t : String} (h : Spelling addr f t)
    (hlt : addr < space) (haddr : f.addressOf addr = addr) (hlen : len ≤ f.bits) :
    Prefix.readParts f (t ++ "/" ++ len.repr).toList = some (addr, len) := by
  refine Prefix.readParts_eq_some_iff.mpr ⟨t.toList, len.repr.toList, ?_,
    fun hslash => (h.isSign hslash).spec.2.2.1 rfl, h.read hlt haddr, readNat_repr ?_, hlen⟩
  · simp
  · exact Nat.le_trans hlen (Nat.le_trans f.bits_le (by decide))

/-- **Blocks of addresses are read back**, whichever shape they have. -/
theorem readAddresses_addressText (h : f.Whole b) (hle : b.min ≤ b.max) :
    readAddresses f (addressText f b).toList = some b := by
  obtain ⟨hmin, hmax⟩ := whole_ends h
  have hlt : b.min < space := Nat.lt_of_le_of_lt hle h.lt_space
  have hread : Address.read f (Address.text f b.min).toList = some b.min := by
    rw [Address.read_text hlt, hmin]
  obtain ⟨hslash, hdash⟩ := not_mem_text (f := f) (n := b.min)
  rw [addressText]
  cases hp : prefixLength? f b with
  | some len =>
    obtain ⟨hlen, haligned, hlast⟩ := prefixLength?_eq_some hp
    dsimp only
    split
    · next hbits =>
      subst hbits
      rw [readAddresses, if_neg (by simpa using hslash), Text.cutAt_eq_none_iff.mpr hdash]
      dsimp only
      rw [hread, Option.map_some, endOf, ← hlast]
    · have hcontains : (Address.text f b.min ++ "/" ++ len.repr).toList.contains '/' = true := by
        simp
      have hparts := readParts_spelling (.text f) hlt hmin hlen
      obtain ⟨haddr, hlen'⟩ := Prefix.containing_of_aligned hlt hlen haligned
      rw [readAddresses, if_pos hcontains, Prefix.readCleared, hparts, Option.map_some,
        Option.map_some, Prefix.block, Prefix.last, haddr, hlen', ← hlast]
  | none =>
    obtain ⟨hslash', -⟩ := not_mem_text (f := f) (n := b.max)
    have htext : (Address.text f b.min ++ "-" ++ Address.text f b.max).toList =
        (Address.text f b.min).toList ++ '-' :: (Address.text f b.max).toList := by
      simp
    have hcut : Text.cutAt '-' (Address.text f b.min ++ "-" ++ Address.text f b.max).toList =
        some ((Address.text f b.min).toList, (Address.text f b.max).toList) :=
      Text.cutAt_eq_some_iff.mpr ⟨htext, hdash⟩
    dsimp only
    rw [readAddresses, hcut, htext, if_neg (by simp [hslash, hslash'])]
    simp only [hread, Address.read_text h.lt_space, hmax, Option.bind_eq_bind, Option.bind_some,
      Option.pure_def]

/-- The text of a block of AS numbers by those at its ends. -/
theorem asnText_eq {first last : Asn} (hfirst : first.toNat = b.min) (hlast : last.toNat = b.max) :
    asnText b = if b.min = b.max then first.text else first.text ++ "-" ++ last.text := by
  have hdash : "-AS" = "-" ++ "AS" := rfl
  rw [asnText, Asn.text, Asn.text, hfirst, hlast, hdash]
  simp only [String.append_assoc]

/-- **Blocks of AS numbers are read back.** -/
theorem readAsns_asnText (hle : b.min ≤ b.max) (hlt : b.max < 1 <<< 32) :
    readAsns (asnText b).toList = .ok b := by
  let first : Asn := ⟨b.min, Nat.lt_of_le_of_lt hle hlt⟩
  let last : Asn := ⟨b.max, hlt⟩
  have hdash : '-' ∉ first.text.toList := fun h =>
    absurd (Asn.isAlphanum_of_mem_text h) (by decide)
  rw [asnText_eq (rfl : first.toNat = b.min) (rfl : last.toNat = b.max)]
  split
  · next heq =>
    rw [readAsns, Text.cutAt_eq_none_iff.mpr hdash]
    dsimp only
    rw [Asn.read_text]
    exact congrArg (fun e => Except.ok (Block.mk b.min e)) heq
  · have htext : (first.text ++ "-" ++ last.text).toList =
        first.text.toList ++ '-' :: last.text.toList := by
      simp
    rw [readAsns, Text.cutAt_eq_some_iff.mpr ⟨htext, hdash⟩, Asn.toList_text last]
    dsimp only
    rw [← Asn.toList_text last, Asn.read_text, Asn.read_text]
    rfl

/-! ### The characters of blocks -/

theorem mem_addressText (h : c ∈ (addressText f b).toList) :
    (∃ n, c ∈ (Address.text f n).toList) ∨ c.isAlphanum = true ∨ c = '/' ∨ c = '-' := by
  rw [addressText] at h
  split at h
  · split at h
    · exact .inl ⟨_, h⟩
    · simp only [String.toList_append, List.mem_append] at h
      rcases h with (h | h) | h
      · exact .inl ⟨_, h⟩
      · exact .inr (.inr (.inl (List.mem_singleton.mp h)))
      · exact .inr (.inl (isAlphanum_of_mem_repr h))
  · simp only [String.toList_append, List.mem_append] at h
    rcases h with (h | h) | h
    · exact .inl ⟨_, h⟩
    · exact .inr (.inr (.inr (List.mem_singleton.mp h)))
    · exact .inl ⟨_, h⟩

theorem mem_asnText (h : c ∈ (asnText b).toList) : c.isAlphanum = true ∨ c = '-' := by
  have hletters : ∀ c ∈ "-AS".toList, c.isAlphanum = true ∨ c = '-' := by simp
  rw [asnText] at h
  split at h
  · simp only [String.toList_append, List.mem_append] at h
    exact h.elim (fun h => hletters c (List.mem_cons_of_mem _ h))
      fun h => .inl (isAlphanum_of_mem_repr h)
  · simp only [String.toList_append, List.mem_append] at h
    rcases h with ((h | h) | h) | h
    · exact hletters c (List.mem_cons_of_mem _ h)
    · exact .inl (isAlphanum_of_mem_repr h)
    · exact hletters c h
    · exact .inl (isAlphanum_of_mem_repr h)

end Block

/-! ### Prefixes -/

namespace Prefix

/-- **The spellings of a prefix**: those of its first address, each with the length behind it. -/
def Spelling (p : Prefix) (s : String) : Prop :=
  ∃ t, Address.Spelling p.addr p.family t ∧ s = t ++ "/" ++ p.len.repr

theorem spelling_text (p : Prefix) : p.Spelling p.text := ⟨_, .text _, rfl⟩

namespace Spelling

variable {p : Prefix} {s : String}

/-- The family of a prefix is told from each of its spellings. -/
theorem colon_mem_iff (h : p.Spelling s) : ':' ∈ s.toList ↔ p.family = .ipv6 := by
  obtain ⟨t, ht, rfl⟩ := h
  have hdigits : ':' ∉ p.len.repr.toList := fun h =>
    absurd (isAlphanum_of_mem_repr h) (by decide)
  rw [← ht.colon_mem_iff, String.toList_append, String.toList_append, List.mem_append,
    List.mem_append]
  exact ⟨fun h => h.elim (·.elim id fun h => absurd h (by decide)) fun h => absurd h hdigits,
    fun h => .inl (.inl h)⟩

/-- **Prefixes are read back**, however they are spelled. -/
theorem readExact (h : p.Spelling s) : readExact s.toList = some p := by
  have hfamily :
      (if s.toList.contains ':' = true then Family.ipv6 else Family.ipv4) = p.family := by
    simp only [List.contains_iff_mem, h.colon_mem_iff]
    cases p.family <;> rfl
  obtain ⟨t, ht, rfl⟩ := h
  have haddr : p.family.addressOf p.addr = p.addr := (Block.whole_ends p.whole).1
  have hparts : readParts p.family (t ++ "/" ++ p.len.repr).toList = some (p.addr, p.len) :=
    Block.readParts_spelling ht p.addr_lt haddr p.len_le
  have hcontaining : containing p.family p.addr p.len = p :=
    (eq_containing p.addr_mem_block).symm
  simp only [Prefix.readExact, hfamily, hparts, hcontaining, Option.bind_eq_bind, Option.bind_some,
    if_true]

/-- Prefixes are spelled with the signs of addresses and a slash. -/
theorem isSign {c : Char} (h : p.Spelling s) (hc : c ∈ s.toList) : IsSign c ∨ c = '/' := by
  obtain ⟨t, ht, rfl⟩ := h
  rw [String.toList_append, String.toList_append, List.mem_append, List.mem_append] at hc
  rcases hc with (hc | hc) | hc
  · exact .inl (ht.isSign hc)
  · exact .inr (List.mem_singleton.mp hc)
  · exact .inl (.inl (isAlphanum_of_mem_repr hc))

theorem ne_nil (h : p.Spelling s) : s.toList ≠ [] := by
  intro hnil
  have hread := h.readExact
  rw [hnil] at hread
  exact nomatch hread

/-- A prefix is spelled without blanks. -/
theorem isBlank_eq_false {c : Char} (h : p.Spelling s) (hc : c ∈ s.toList) : isBlank c = false := by
  rcases h.isSign hc with hsign | rfl
  · exact hsign.spec.1
  · decide

end Spelling

theorem parse_text (p : Prefix) : parse p.text = .ok p := by
  rw [parse, trimmed_eq_self fun c => p.spelling_text.isBlank_eq_false,
    p.spelling_text.readExact]

end Prefix

/-! ### Items -/

namespace ResourceSet

variable {f : Family} {b : Block} {s : ResourceSet} {c : Char}

/-- The text of a block of addresses starts with its first address. -/
theorem exists_addressText_eq (f : Family) (b : Block) :
    ∃ rest, (Block.addressText f b).toList = (Address.text f b.min).toList ++ rest := by
  rw [Block.addressText]
  split
  · split
    · exact ⟨[], (List.append_nil _).symm⟩
    · exact ⟨_, by rw [String.toList_append, String.toList_append, List.append_assoc]⟩
  · exact ⟨_, by rw [String.toList_append, String.toList_append, List.append_assoc]⟩

/-- **The family of a block** is told from its text. -/
theorem familyOf?_addressText (f : Family) (b : Block) :
    familyOf? (Block.addressText f b).toList = some f := by
  obtain ⟨rest, hrest⟩ := exists_addressText_eq f b
  cases f with
  | ipv4 =>
    have hcolon : ':' ∉ (Block.addressText .ipv4 b).toList := by
      intro h
      rcases Block.mem_addressText h with ⟨n, h⟩ | h
      · exact absurd (isAlphanum_of_mem_dotted h) (by decide)
      · exact absurd h (by decide)
    have hdot : '.' ∈ (Block.addressText .ipv4 b).toList := by
      rw [hrest, Address.text]
      exact List.mem_append_left rest (dot_mem_dotted _)
    rw [familyOf?, if_neg (by simpa using hcolon), if_pos (by simpa using hdot)]
  | ipv6 =>
    have hcolon : ':' ∈ (Block.addressText .ipv6 b).toList := by
      rw [hrest, Address.text]
      exact List.mem_append_left rest (colon_mem_coloned _)
    rw [familyOf?, if_pos (by simpa using hcolon)]

theorem familyOf?_asnText (b : Block) : familyOf? (Block.asnText b).toList = none := by
  have hcolon : ':' ∉ (Block.asnText b).toList := fun h =>
    absurd (Block.mem_asnText h) (by decide)
  have hdot : '.' ∉ (Block.asnText b).toList := fun h => absurd (Block.mem_asnText h) (by decide)
  rw [familyOf?, if_neg (by simpa using hcolon), if_neg (by simpa using hdot)]

/-! ### Whole sets -/

/-- The items of a set, with the text of each. -/
def writtenItems (s : ResourceSet) : List (String × Item) :=
  s.asns.map (fun b => (Block.asnText b, .asns b)) ++
    (s.ipv4.map (fun b => (Block.addressText .ipv4 b, .addresses .ipv4 b)) ++
      s.ipv6.map fun b => (Block.addressText .ipv6 b, .addresses .ipv6 b))

theorem text_eq_join (s : ResourceSet) : s.text = Text.join ", " (s.writtenItems.map Prod.fst) := by
  simp only [text, writtenItems, List.map_append, List.map_map, Function.comp_def,
    List.append_assoc]

/-- **Every item is read back** from its text. -/
theorem isRead_of_mem_writtenItems (h : s.Canonical) {e : String × Item}
    (he : e ∈ s.writtenItems) : IsRead e.1.toList e.2 := by
  have haddresses : ∀ f, ∀ b ∈ s.addresses f,
      IsRead (Block.addressText f b).toList (.addresses f b) := by
    intro f b hb
    have hle := (h.normal.addresses f).ordered b hb
    exact .addresses (familyOf?_addressText f b)
      (Block.readAddresses_addressText (h.whole f b hb) hle) hle
  simp only [writtenItems, List.mem_append, List.mem_map] at he
  rcases he with ⟨b, hb, rfl⟩ | ⟨b, hb, rfl⟩ | ⟨b, hb, rfl⟩
  · have hle := h.normal.1.ordered b hb
    exact .asns (familyOf?_asnText b) (Block.readAsns_asnText hle (h.asns_lt b hb)) hle
  · exact haddresses .ipv4 b hb
  · exact haddresses .ipv6 b hb

/-- **The characters of items**: those of addresses, slashes and dashes. -/
def IsItemSign (c : Char) : Prop := IsSign c ∨ c = '/' ∨ c = '-'

theorem isItemSign_of_mem_writtenItems {e : String × Item} (he : e ∈ s.writtenItems)
    (hc : c ∈ e.1.toList) : IsItemSign c := by
  have haddress : ∀ {f b}, c ∈ (Block.addressText f b).toList → IsItemSign c := by
    intro f b h
    rcases Block.mem_addressText h with ⟨n, h⟩ | h | h
    · exact .inl (isSign_of_mem_text h)
    · exact .inl (.inl h)
    · exact .inr h
  simp only [writtenItems, List.mem_append, List.mem_map] at he
  rcases he with ⟨b, -, rfl⟩ | ⟨b, -, rfl⟩ | ⟨b, -, rfl⟩
  · exact (Block.mem_asnText hc).imp .inl .inr
  · exact haddress hc
  · exact haddress hc

/-- Items are not cut at their characters, and not trimmed. -/
theorem IsItemSign.spec (h : IsItemSign c) : isBlank c = false ∧ c ≠ ',' := by
  rcases h with h | rfl | rfl
  · exact ⟨h.spec.1, h.spec.2.1⟩
  · decide
  · decide

theorem listed_writtenItems (s : ResourceSet) : listed (s.writtenItems.map Prod.snd) = s := by
  simp [listed, writtenItems, List.filterMap_append, List.filterMap_map, Function.comp_def]

/-- Nothing is read from an empty item. -/
theorem IsRead.ne_nil {item : List Char} {i : Item} (h : IsRead item i) : item ≠ [] := by
  rintro rfl
  cases h with
  | asns _ hb => exact nomatch hb
  | addresses hf => exact nomatch hf

/-- The blanks behind the commas are the first characters of the pieces between these. -/
theorem intercalate_blank (t : List Char) (texts : List (List Char)) :
    [',', ' '].intercalate (t :: texts) = [','].intercalate (t :: texts.map (' ' :: ·)) := by
  induction texts generalizing t with
  | nil => rfl
  | cons u texts ih =>
    rw [List.intercalate_cons_cons, ih, List.map_cons, List.intercalate_cons_cons,
      List.intercalate_cons_cons_left]
    simp

/-- **Cutting a text gives the items that it was joined from.** -/
theorem items_intercalate {texts : List (List Char)} (hne : ∀ t ∈ texts, t ≠ [])
    (h : ∀ t ∈ texts, ∀ c ∈ t, isBlank c = false ∧ c ≠ ',') :
    items ([',', ' '].intercalate texts) = texts := by
  have hcomma : ∀ t ∈ texts, ',' ∉ t := fun t ht hc => (h t ht _ hc).2 rfl
  have htrimmed : ∀ t ∈ texts, trimmed t = t :=
    fun t ht => trimmed_eq_self fun c hc => (h t ht c hc).1
  have hkept : texts.filter (fun item => !item.isEmpty) = texts := by
    refine List.filter_eq_self.mpr fun t ht => ?_
    simpa using hne t ht
  cases texts with
  | nil => rfl
  | cons t texts =>
    obtain ⟨ht, hmore⟩ := List.forall_mem_cons.mp hcomma
    have hpieces : piecesAt ',' ([',', ' '].intercalate (t :: texts)) =
        t :: texts.map (' ' :: ·) := by
      rw [intercalate_blank]
      refine piecesAt_intercalate (List.forall_mem_cons.mpr ⟨ht, ?_⟩) (List.cons_ne_nil _ _)
      exact List.forall_mem_map.mpr fun u hu => by simpa using hmore u hu
    have hblank : ∀ u ∈ texts, trimmed (' ' :: u) = u := fun u hu =>
      (trimmed_cons_of_isBlank (by decide)).trans (htrimmed u (List.mem_cons_of_mem t hu))
    have hall : (texts.map (' ' :: ·)).map trimmed = texts := by
      rw [List.map_map]
      exact (List.map_congr_left hblank).trans (List.map_id texts)
    rw [items, hpieces, List.map_cons, hall, htrimmed t List.mem_cons_self, hkept]

theorem items_text (h : s.Canonical) :
    items s.text.toList = s.writtenItems.map fun e => e.1.toList := by
  have htext : s.text.toList = [',', ' '].intercalate (s.writtenItems.map fun e => e.1.toList) := by
    rw [text_eq_join, Text.toList_join, List.map_map]
    rfl
  rw [htext]
  refine items_intercalate (List.forall_mem_map.mpr fun e he => ?_)
    (List.forall_mem_map.mpr fun e he c hc => (isItemSign_of_mem_writtenItems he hc).spec)
  exact (isRead_of_mem_writtenItems h he).ne_nil

/-- **A canonical set is read back** from its text. -/
theorem read_text (h : s.Canonical) : read s.text = .ok s := by
  have hitems : (items s.text.toList).mapM readItem = .ok (s.writtenItems.map Prod.snd) := by
    rw [items_text h, Reading.mapM_eq_ok_iff, List.forall₂_map_left_iff, List.forall₂_map_right_iff,
      List.forall₂_same]
    exact fun e he => readItem_eq_ok_iff.mpr (isRead_of_mem_writtenItems h he)
  have hcollected : s.collected = s := by
    rw [collected, Block.collect_eq_self h.normal.1, Block.collect_eq_self h.normal.2.1,
      Block.collect_eq_self h.normal.2.2]
  exact read_eq_ok_iff.mpr
    ⟨_, hitems, (congrArg collected (listed_writtenItems s)).trans hcollected⟩

end ResourceSet

/-! ### The stored form -/

namespace ResourceSet

variable {s : ResourceSet}

theorem IsItemSign.isEscaped_eq_false {c : Char} (h : IsItemSign c) : Json.isEscaped c = false := by
  rcases h with (h | rfl | rfl) | rfl | rfl
  · exact Json.isEscaped_of_isAlphanum h
  all_goals rfl

/-- The text of a set has no characters to escape. -/
theorem isEscaped_of_mem_text (s : ResourceSet) :
    ∀ c ∈ s.text.toList, Json.isEscaped c = false := by
  intro c hc
  rw [text_eq_join, Text.toList_join, List.map_map] at hc
  rcases mem_intercalate hc with hc | ⟨t, ht, hc⟩
  · rcases List.mem_cons.mp hc with rfl | hc
    · rfl
    · obtain rfl := List.mem_singleton.mp hc
      rfl
  · obtain ⟨e, he, rfl⟩ := List.mem_map.mp ht
    exact (isItemSign_of_mem_writtenItems he hc).isEscaped_eq_false

/-- **Canonical sets survive being written**: the text of a set is read as the same set, and so is
its stored form, which is the text between quotes. -/
theorem Canonical.round_trip (h : s.Canonical) :
    read s.text = .ok s ∧
      Json.parse ("\"" ++ s.text ++ "\"") = some (store s) ∧
      (restore (store s) : Restored ResourceSet) = .ok s := by
  have hread := read_text h
  have hstored : store s = .text s.text := rfl
  have hrestore : ∀ t : String,
      (restore (.text t) : Restored ResourceSet) = (read t).mapCause fun _ => () := fun _ => rfl
  rw [hstored, hrestore, hread]
  exact ⟨rfl, Json.parse_quoted (isEscaped_of_mem_text s), rfl⟩

/-- Items of every kind survive: single numbers, prefixes and ranges, and IPv6 addresses with an
IPv4 address in them, with a gap and without one. So do all resources together, and none. -/
theorem Canonical.round_trip_mixed :
    ∃ s t : ResourceSet, s.Canonical ∧ t.Canonical ∧
      s.text = "AS1, AS5-AS9, 10.0.0.0/8, 192.0.2.1, 198.51.100.3-198.51.100.9, " ++
        "::1, ::ffff:192.0.2.1-::ffff:192.0.2.4, 2001:db8::/32, 2001:db9:1:2:3:4:5:6" ∧
      read s.text = .ok s ∧
      t.text = "AS0-AS4294967295, 0.0.0.0/0, ::/0" ∧ read t.text = .ok t ∧
      empty.text = "" ∧ read empty.text = .ok empty := by
  let s : ResourceSet :=
    ⟨[⟨1, 1⟩, ⟨5, 9⟩],
      [⟨0x0a000000 <<< 96, (0x0b000000 <<< 96) - 1⟩, ⟨0xc0000201 <<< 96, (0xc0000202 <<< 96) - 1⟩,
        ⟨0xc6336403 <<< 96, (0xc633640a <<< 96) - 1⟩],
      [⟨1, 1⟩, ⟨0xffffc0000201, 0xffffc0000204⟩, ⟨0x20010db8 <<< 96, (0x20010db9 <<< 96) - 1⟩,
        Block.single 0x20010db9000100020003000400050006]⟩
  let t : ResourceSet := ⟨[⟨0, (1 <<< 32) - 1⟩], [⟨0, space - 1⟩], [⟨0, space - 1⟩]⟩
  have hs : s.Canonical := by decide
  have ht : t.Canonical := by decide
  have hempty : empty.Canonical := by decide
  exact ⟨s, t, hs, ht, by cbv, hs.round_trip.1, by cbv, ht.round_trip.1, by cbv,
    hempty.round_trip.1⟩

end ResourceSet

end RpkiAuthority
