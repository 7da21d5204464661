import RpkiAuthority.Proofs.Resource.Cut

/-!
# One list of resources or three

Resources are read from one list of all kinds of items, or from three lists, one for each kind. Both
readers cut their lists at the same commas and turn an item into the same block, so they give the
same sets (`ResourceSet.outline_read`, `ResourceSet.Separated.outline_readSeparate`), up to one
thing: a range that ends before it starts (`ResourceSet.IsInverted`) is refused in one list, and
taken as it is in three. A text with such a range is never read as one list, and where its three
lists are read, the two readers differ (`ResourceSet.Separated.alike_unless_inverted`).
-/

namespace RpkiAuthority

open Text

/-! ### Outcomes without their causes -/

namespace Reading

variable {ε δ α β : Type} {x : Reading ε α} {a : α}

/-- The outcome without the cause of a refusal. -/
def outline (x : Reading ε α) : Reading Unit α := x.mapCause fun _ => ()

theorem outline_eq_ok_iff : x.outline = .ok a ↔ x = .ok a := mapCause_eq_ok

theorem outline_bind (x : Reading ε α) (g : α → Reading ε β) :
    (x >>= g).outline = x.outline >>= fun a => (g a).outline := by
  rcases x with (_ | _) | a <;> rfl

theorem outline_mapCause (f : ε → δ) (x : Reading ε α) : (x.mapCause f).outline = x.outline := by
  rcases x with (_ | _) | a <;> rfl

theorem outline_ofOption (cause : ε) (o : Option α) :
    (ofOption cause o).outline = ofOption () o := by
  cases o <;> rfl

/-- Where there is one cause only nothing is lost. -/
theorem outline_eq_self (x : Reading Unit α) : x.outline = x := by
  rcases x with (_ | _) | a <;> rfl

/-- The members of a list are read one by one. -/
theorem outline_mapM (g : α → Reading ε β) (l : List α) :
    (l.mapM g).outline = l.mapM fun a => (g a).outline := by
  induction l with
  | nil => rfl
  | cons a l ih =>
    rw [List.mapM_cons, List.mapM_cons, outline_bind, ← ih]
    refine bind_congr fun b => ?_
    rw [outline_bind]
    rfl

theorem mapM_ofOption (cause : ε) (g : α → Option β) (l : List α) :
    (l.mapM fun a => ofOption cause (g a)) = ofOption cause (l.mapM g) := by
  induction l with
  | nil => rfl
  | cons a l ih =>
    rw [List.mapM_cons, List.mapM_cons, ih]
    cases g a with
    | none => rfl
    | some b => cases l.mapM g <;> rfl

theorem mapM_congr {g g' : α → Reading ε β} {l : List α} (h : ∀ a ∈ l, g a = g' a) :
    l.mapM g = l.mapM g' := by
  induction l with
  | nil => rfl
  | cons a l ih =>
    obtain ⟨ha, hl⟩ := List.forall_mem_cons.mp h
    rw [List.mapM_cons, List.mapM_cons, ha, ih hl]

theorem mapM_map {γ : Type} (f : β → γ) (g : α → Reading ε β) (l : List α) :
    (l.mapM fun a => (g a).map f) = (l.mapM g).map (List.map f) := by
  induction l with
  | nil => rfl
  | cons a l ih =>
    rw [List.mapM_cons, List.mapM_cons, ih]
    cases g a with
    | error e => rfl
    | ok b => cases l.mapM g <;> rfl

end Reading

open Reading

/-! ### Ranges that end before they start -/

namespace ResourceSet

variable {item : List Char} {f : Family} {b : Block}

/-- **A range that ends before it starts**, of AS numbers or of addresses. -/
inductive IsInverted (item : List Char) : Prop where
  | asns {first last : List Char} {x y : Asn} (hf : familyOf? item = none)
    (heq : item = first ++ '-' :: last) (hdash : '-' ∉ first) (hx : Asn.read first = .ok x)
    (hy : Asn.read last = .ok y) (hlt : y.toNat < x.toNat)
  | addresses {f : Family} {first last : List Char} {x y : Nat} (hf : familyOf? item = some f)
    (hslash : '/' ∉ item) (heq : item = first ++ '-' :: last) (hdash : '-' ∉ first)
    (hx : Address.read f first = some x) (hy : Address.read f last = some y) (hlt : y < x)

/-- What an item stands for, whatever the order of its ends. -/
def blockOf (item : List Char) : Reading Unit Item :=
  match familyOf? item with
  | none => (Block.readAsns item).map .asns
  | some f => (ofOption () (Block.readAddresses f item)).map (.addresses f)

/-- The block of AS numbers of an item has its ends in order, or the item is inverted. -/
theorem lt_iff_of_readAsns (hf : familyOf? item = none) (hb : Block.readAsns item = .ok b) :
    b.max < b.min ↔ IsInverted item := by
  rw [Block.readAsns] at hb
  split at hb
  · next hcut =>
    obtain ⟨x, -, h⟩ := bind_eq_ok.mp hb
    obtain rfl := Except.ok.inj h
    rw [cutAt_eq_none_iff] at hcut
    refine iff_of_false (Nat.lt_irrefl _) ?_
    rintro (⟨-, heq, -, -, -, -⟩ | ⟨hf', -, -, -, -, -, -⟩)
    · exact hcut (heq ▸ List.mem_append_right _ List.mem_cons_self)
    · exact absurd (hf.symm.trans hf') (by simp)
  · exact absurd hb (by simp)
  · next first last hne hcut =>
    obtain ⟨x, hx, h⟩ := bind_eq_ok.mp hb
    obtain ⟨y, hy, h⟩ := bind_eq_ok.mp h
    obtain rfl := Except.ok.inj h
    obtain ⟨heq, hdash⟩ := cutAt_eq_some_iff.mp hcut
    constructor
    · exact .asns hf heq hdash hx hy
    · rintro (⟨-, heq', hdash', hx', hy', hlt⟩ | ⟨hf', -, -, -, -, -, -⟩)
      · obtain ⟨rfl, rfl⟩ := eq_of_cut heq hdash heq' hdash'
        obtain rfl := Except.ok.inj (hx.symm.trans hx')
        obtain rfl := Except.ok.inj (hy.symm.trans hy')
        exact hlt
      · exact absurd (hf.symm.trans hf') (by simp)

/-- Addresses are a multiple of bits apart, so the whole of one is behind another only if it is. -/
theorem endOf_lt_iff {first last : List Char} {x y : Nat} (hx : Address.read f first = some x)
    (hy : Address.read f last = some y) : Block.endOf f y < x ↔ y < x := by
  refine ⟨Nat.lt_of_le_of_lt (Nat.le_add_right _ _), fun hlt => ?_⟩
  obtain ⟨p, rfl⟩ := Nat.dvd_of_mod_eq_zero (Address.whole_of_read hx).start
  obtain ⟨q, rfl⟩ := Nat.dvd_of_mod_eq_zero (Address.whole_of_read hy).start
  have hpos := Address.blockSize_pos f.bits
  have hnext : Address.blockSize f.bits * (q + 1) ≤ Address.blockSize f.bits * p :=
    Nat.mul_le_mul_left _ (Nat.lt_of_mul_lt_mul_left hlt)
  rw [Block.endOf]
  rw [Nat.mul_succ] at hnext
  omega

/-- So has the block of addresses. -/
theorem lt_iff_of_readAddresses (hf : familyOf? item = some f)
    (hb : Block.readAddresses f item = some b) : b.max < b.min ↔ IsInverted item := by
  rw [Block.readAddresses] at hb
  split at hb
  · next hslash =>
    rw [List.contains_iff_mem] at hslash
    obtain ⟨p, -, rfl⟩ := Option.map_eq_some_iff.mp hb
    refine iff_of_false (Nat.not_lt.mpr (Nat.le_add_right _ _)) ?_
    rintro (⟨hf', -, -, -, -, -⟩ | ⟨-, hno, -, -, -, -, -⟩)
    · exact absurd (hf.symm.trans hf') (by simp)
    · exact hno hslash
  · next hslash =>
    rw [List.contains_iff_mem] at hslash
    split at hb
    · next first last hcut =>
      simp only [bind, Option.bind_eq_some_iff, pure, Option.some.injEq] at hb
      obtain ⟨x, hx, y, hy, rfl⟩ := hb
      obtain ⟨heq, hdash⟩ := cutAt_eq_some_iff.mp hcut
      rw [endOf_lt_iff hx hy]
      constructor
      · exact .addresses hf hslash heq hdash hx hy
      · rintro (⟨hf', -, -, -, -, -⟩ | ⟨hf', -, heq', hdash', hx', hy', hlt⟩)
        · exact absurd (hf.symm.trans hf') (by simp)
        · obtain ⟨rfl, rfl⟩ := eq_of_cut heq hdash heq' hdash'
          obtain rfl := Option.some.inj (hf.symm.trans hf')
          obtain rfl := Option.some.inj (hx.symm.trans hx')
          obtain rfl := Option.some.inj (hy.symm.trans hy')
          exact hlt
    · next hcut =>
      obtain ⟨x, -, rfl⟩ := Option.map_eq_some_iff.mp hb
      rw [cutAt_eq_none_iff] at hcut
      refine iff_of_false (Nat.not_lt.mpr (Nat.le_add_right _ _)) ?_
      rintro (⟨-, heq, -, -, -, -⟩ | ⟨-, -, heq, -, -, -, -⟩)
      · exact hcut (heq ▸ List.mem_append_right _ List.mem_cons_self)
      · exact hcut (heq ▸ List.mem_append_right _ List.mem_cons_self)

/-- An inverted item is not read. -/
theorem IsInverted.not_isRead (h : IsInverted item) {i : Item} : ¬IsRead item i := by
  rintro (⟨hf, hb, hle⟩ | ⟨hf, hb, hle⟩)
  · exact Nat.not_lt.mpr hle ((lt_iff_of_readAsns hf hb).mpr h)
  · exact Nat.not_lt.mpr hle ((lt_iff_of_readAddresses hf hb).mpr h)

theorem requireOrder_eq_self (h : ¬b.max < b.min) : requireOrder item b = .ok b :=
  requireOrder_eq_ok.mpr ⟨Nat.not_lt.mp h, rfl⟩

/-- **Any other item is read** as what it stands for. -/
theorem outline_readItem (h : ¬IsInverted item) : (readItem item).outline = blockOf item := by
  have haddress : ∀ {f : Family}, familyOf? item = some f →
      (readAddressItem f item).outline = blockOf item := by
    intro f hf
    rw [readAddressItem, blockOf, hf, outline_bind, outline_ofOption]
    dsimp only
    cases hb : Block.readAddresses f item with
    | none => rfl
    | some b =>
      show (requireOrder item b >>= fun c => pure (Item.addresses f c)).outline = _
      rw [requireOrder_eq_self (mt (lt_iff_of_readAddresses hf hb).mp h)]
      rfl
  rw [readItem]
  split
  · next hcolon => exact haddress (by rw [familyOf?, if_pos hcolon])
  · next hcolon =>
    split
    · next hdot => exact haddress (by rw [familyOf?, if_neg hcolon, if_pos hdot])
    · next hdot =>
      have hf : familyOf? item = none := by rw [familyOf?, if_neg hcolon, if_neg hdot]
      rw [blockOf, hf, outline_bind, outline_mapCause, outline_eq_self]
      dsimp only
      cases hb : Block.readAsns item with
      | error e => rfl
      | ok b =>
        show (requireOrder item b >>= fun c => pure (Item.asns c)).outline = _
        rw [requireOrder_eq_self (mt (lt_iff_of_readAsns hf hb).mp h)]
        rfl

/-! ### Lists of items -/

variable {asns ipv4 ipv6 : String}

/-- The items on both sides of a comma. -/
theorem items_append (x y : List Char) : items (x ++ ',' :: y) = items x ++ items y := by
  rw [items, piecesAt_append, List.map_append, List.filter_append]
  rfl

/-- The items of three lists that are joined with commas. -/
theorem items_join (asns ipv4 ipv6 : String) :
    items (join "," [asns, ipv4, ipv6]).toList =
      items asns.toList ++ (items ipv4.toList ++ items ipv6.toList) := by
  have hjoin : (join "," [asns, ipv4, ipv6]).toList =
      asns.toList ++ ',' :: (ipv4.toList ++ ',' :: ipv6.toList) := by
    simp [join]
  rw [hjoin, items_append, items_append]

/-- **Lists of their own kinds of items**: AS numbers have neither dots nor colons, IPv4 addresses
have dots and no colons, and IPv6 addresses have colons. -/
structure Separated (asns ipv4 ipv6 : String) : Prop where
  asns : ∀ item ∈ items asns.toList, '.' ∉ item ∧ ':' ∉ item
  ipv4 : ∀ item ∈ items ipv4.toList, '.' ∈ item ∧ ':' ∉ item
  ipv6 : ∀ item ∈ items ipv6.toList, ':' ∈ item

/-- The set of items that are listed kind by kind. -/
theorem ofItems_kinds (a b c : List Block) :
    ofItems (a.map .asns ++ (b.map (.addresses .ipv4) ++ c.map (.addresses .ipv6))) =
      ⟨Block.collect a, Block.collect b, Block.collect c⟩ := by
  simp [ofItems, List.filterMap_map]

/-- What items about AS numbers stand for. -/
theorem mapM_blockOf_of_none {l : List (List Char)} (h : ∀ item ∈ l, familyOf? item = none) :
    l.mapM blockOf = (l.mapM Block.readAsns).map (List.map .asns) := by
  rw [← mapM_map]
  exact mapM_congr fun item hitem => by rw [blockOf, h item hitem]

/-- What items about addresses of a family stand for. -/
theorem mapM_blockOf_of_some {l : List (List Char)} (h : ∀ item ∈ l, familyOf? item = some f) :
    l.mapM blockOf =
      (ofOption () (l.mapM (Block.readAddresses f))).map (List.map (.addresses f)) := by
  rw [← mapM_ofOption, ← mapM_map]
  exact mapM_congr fun item hitem => by rw [blockOf, h item hitem]

/-- The family that the items of each list are about. -/
theorem Separated.familyOf?_eq (h : Separated asns ipv4 ipv6) :
    (∀ item ∈ items asns.toList, familyOf? item = none) ∧
      (∀ item ∈ items ipv4.toList, familyOf? item = some .ipv4) ∧
        ∀ item ∈ items ipv6.toList, familyOf? item = some .ipv6 := by
  refine ⟨fun item hitem => ?_, fun item hitem => ?_, fun item hitem => ?_⟩
  · have hasns := h.asns item hitem
    simp [familyOf?, hasns]
  · have hipv4 := h.ipv4 item hitem
    simp [familyOf?, hipv4]
  · have hipv6 := h.ipv6 item hitem
    simp [familyOf?, hipv6]

/-- **Three lists are read** as what their items stand for, whatever the order of their ends. -/
theorem Separated.outline_readSeparate (h : Separated asns ipv4 ipv6) :
    (readSeparate asns ipv4 ipv6).outline =
      ((items (join "," [asns, ipv4, ipv6]).toList).mapM blockOf).map ofItems := by
  obtain ⟨hasns, hipv4, hipv6⟩ := h.familyOf?_eq
  rw [items_join, List.mapM_append, List.mapM_append, mapM_blockOf_of_none hasns,
    mapM_blockOf_of_some hipv4, mapM_blockOf_of_some hipv6, readSeparate, outline_bind,
    outline_mapCause, outline_eq_self]
  simp only [readAddressList]
  -- the first list that is not read decides for both
  cases (items asns.toList).mapM Block.readAsns with
  | error e => rfl
  | ok a =>
    cases (items ipv4.toList).mapM (Block.readAddresses .ipv4) with
    | none => rfl
    | some b =>
      cases (items ipv6.toList).mapM (Block.readAddresses .ipv6) with
      | none => rfl
      | some c => exact congrArg Except.ok (ofItems_kinds a b c).symm

/-- **One list is read** as what its items stand for, if none is inverted. -/
theorem outline_read {s : String} (h : ∀ item ∈ items s.toList, ¬IsInverted item) :
    (read s).outline = ((items s.toList).mapM blockOf).map ofItems := by
  rw [read, outline_bind, outline_mapM,
    mapM_congr fun item hitem => outline_readItem (h item hitem)]
  cases (items s.toList).mapM blockOf <;> rfl

/-- One of the items of a text is inverted. -/
def HasInverted (s : String) : Prop := ∃ item ∈ items s.toList, IsInverted item

/-- A text with an inverted item is not read. -/
theorem HasInverted.not_reads {s : String} (h : HasInverted s) : ¬(read s).Reads := by
  rintro ⟨set, hset⟩
  obtain ⟨item, hitem, hinverted⟩ := h
  obtain ⟨l, hl, -⟩ := bind_eq_ok.mp hset
  obtain ⟨i, -, hread⟩ := exists_isRead hl hitem
  exact hinverted.not_isRead hread

/-- **The two readers agree** on three lists that are joined with commas, unless an item is a range
that ends before it starts. Without such an item both give the same set, or both refuse, or both
break off. With one the single list is not read, whatever becomes of the three. So both readers give
the same sets exactly if there is no such item or the three lists are not read either. -/
theorem Separated.alike_unless_inverted (h : Separated asns ipv4 ipv6) :
    (¬HasInverted (join "," [asns, ipv4, ipv6]) →
      (read (join "," [asns, ipv4, ipv6])).outline = (readSeparate asns ipv4 ipv6).outline) ∧
    (HasInverted (join "," [asns, ipv4, ipv6]) → ¬(read (join "," [asns, ipv4, ipv6])).Reads) ∧
    ((∀ s, read (join "," [asns, ipv4, ipv6]) = .ok s ↔ readSeparate asns ipv4 ipv6 = .ok s) ↔
      (HasInverted (join "," [asns, ipv4, ipv6]) → ¬(readSeparate asns ipv4 ipv6).Reads)) := by
  have halike : ¬HasInverted (join "," [asns, ipv4, ipv6]) →
      (read (join "," [asns, ipv4, ipv6])).outline = (readSeparate asns ipv4 ipv6).outline := by
    intro hnone
    rw [h.outline_readSeparate, outline_read]
    exact fun item hitem hinverted => hnone ⟨item, hitem, hinverted⟩
  refine ⟨halike, HasInverted.not_reads, fun hsame hinverted hreads => ?_, fun hfails s => ?_⟩
  · obtain ⟨s, hs⟩ := hreads
    exact hinverted.not_reads ⟨s, (hsame s).mpr hs⟩
  · by_cases hinverted : HasInverted (join "," [asns, ipv4, ipv6])
    · exact iff_of_false (fun hs => hinverted.not_reads ⟨s, hs⟩) fun hs => hfails hinverted ⟨s, hs⟩
    · rw [← outline_eq_ok_iff, halike hinverted, outline_eq_ok_iff]

/-- Items of all kinds, not in order, one with host bits and one IPv6 address that is written with
dots. -/
theorem Separated.alike_unless_inverted_mixed :
    Separated "AS7, 1-5" "10.0.0.1/8, 9.0.0.1-9.0.0.2" "::ffff:10.0.0.1, ::1" ∧
      ∃ s, readSeparate "AS7, 1-5" "10.0.0.1/8, 9.0.0.1-9.0.0.2" "::ffff:10.0.0.1, ::1" =
        .ok s := by
  have hseparated : Separated "AS7, 1-5" "10.0.0.1/8, 9.0.0.1-9.0.0.2" "::ffff:10.0.0.1, ::1" :=
    ⟨by decide +kernel, by decide +kernel, by decide +kernel⟩
  have hreads : (read (join "," ["AS7, 1-5", "10.0.0.1/8, 9.0.0.1-9.0.0.2",
      "::ffff:10.0.0.1, ::1"])).Reads := ⟨_, rfl⟩
  obtain ⟨s, hs⟩ := hreads
  obtain ⟨halike, hfails, -⟩ := hseparated.alike_unless_inverted
  refine ⟨hseparated, s, outline_eq_ok_iff.mp ?_⟩
  rw [← halike fun hinverted => hfails hinverted ⟨s, hs⟩]
  exact outline_eq_ok_iff.mpr hs

/-- A range that ends before it starts makes a difference: in one list it is refused, and in three
it becomes a block. -/
theorem not_alike_of_inverted :
    Separated "" "10.0.0.2-10.0.0.1" "" ∧
      readSeparate "" "10.0.0.2-10.0.0.1" "" =
        .ok ⟨[], [⟨0x0a000002 <<< 96, (0x0a000002 <<< 96) - 1⟩], []⟩ ∧
      read (join "," ["", "10.0.0.2-10.0.0.1", ""]) =
        .error (.refused (.range "10.0.0.2-10.0.0.1")) :=
  ⟨⟨by decide +kernel, by decide +kernel, by decide +kernel⟩, by decide +kernel, by decide +kernel⟩

end ResourceSet

end RpkiAuthority
