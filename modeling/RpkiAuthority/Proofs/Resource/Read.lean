import Mathlib.Data.List.Forall2
import RpkiAuthority.Resource.Text
import RpkiAuthority.Proofs.Resource.Decomposed

/-!
# Sets that are read are whole

Addresses are numbers of 128 bits for both families, and not every range of such numbers is a
range of IPv4 addresses. The readers give only those that are: an address that is read is a number
of the bits of its family, put where the family has them, and the end of a range gets all lower
bits set. Putting blocks together keeps this, whatever their order, because no join makes up an
end that no block had before (`Block.ends_collect`).
-/

namespace RpkiAuthority

/-! ### Readers in a row -/

namespace Reading

variable {ε α β : Type} {g : α → Reading ε β} {l : List α} {r : List β}

theorem bind_eq_ok {x : Reading ε α} {g : α → Reading ε β} {b : β} :
    x >>= g = .ok b ↔ ∃ a, x = .ok a ∧ g a = .ok b := by
  cases x with
  | ok a => exact ⟨fun h => ⟨a, rfl, h⟩, fun ⟨_, ha, h⟩ => Except.ok.inj ha ▸ h⟩
  | error e => exact ⟨fun h => (nomatch h), fun ⟨_, ha, _⟩ => (nomatch ha)⟩

theorem ofOption_eq_ok {cause : ε} {x : Option α} {a : α} :
    ofOption cause x = .ok a ↔ x = some a := by
  cases x with
  | none => simp [ofOption]
  | some b => simp [ofOption]

/-- What is read from a list is read from its members. -/
theorem exists_of_mem_mapM_option {g : α → Option β} {l : List α} {r : List β}
    (h : l.mapM g = some r) {b : β} (hb : b ∈ r) : ∃ a ∈ l, g a = some b := by
  induction l generalizing r with
  | nil =>
    obtain rfl := Option.some.inj h
    exact absurd hb List.not_mem_nil
  | cons a rest ih =>
    simp only [List.mapM_cons, bind, Option.bind_eq_some_iff, pure, Option.some.injEq] at h
    obtain ⟨c, hc, more, hmore, rfl⟩ := h
    rcases List.mem_cons.mp hb with rfl | hb
    · exact ⟨a, List.mem_cons_self, hc⟩
    · obtain ⟨d, hd, hdb⟩ := ih hmore hb
      exact ⟨d, List.mem_cons_of_mem a hd, hdb⟩

/-- Where a list is read every member is. -/
theorem exists_of_mapM_option {g : α → Option β} {l : List α} {r : List β}
    (h : l.mapM g = some r) {a : α} (ha : a ∈ l) : ∃ b, g a = some b := by
  induction l generalizing r with
  | nil => exact absurd ha List.not_mem_nil
  | cons d rest ih =>
    simp only [List.mapM_cons, bind, Option.bind_eq_some_iff, pure] at h
    obtain ⟨b, hb, more, hmore, -⟩ := h
    rcases List.mem_cons.mp ha with rfl | ha
    · exact ⟨b, hb⟩
    · exact ih hmore ha

/-- A list is read member by member. -/
theorem mapM_eq_ok_iff : l.mapM g = .ok r ↔ List.Forall₂ (fun a b => g a = .ok b) l r := by
  induction l generalizing r with
  | nil =>
    rw [List.mapM_nil, List.forall₂_nil_left_iff]
    exact ⟨fun h => (Except.ok.inj h).symm, fun h => h ▸ rfl⟩
  | cons a l ih =>
    have hpure : ∀ {b more}, (pure (b :: more) : Reading ε (List β)) = .ok r ↔ r = b :: more :=
      ⟨fun h => (Except.ok.inj h).symm, fun h => h ▸ rfl⟩
    rw [List.mapM_cons, bind_eq_ok, List.forall₂_cons_left_iff]
    simp only [bind_eq_ok, ih, hpure, exists_and_left]

/-- What is read is what its members are read as. -/
theorem mem_of_mapM_eq_ok (h : l.mapM g = .ok r) {b : β} : b ∈ r ↔ ∃ a ∈ l, g a = .ok b := by
  rw [mapM_eq_ok_iff] at h
  induction h with
  | nil => simp
  | cons hb _ ih =>
    rw [List.mem_cons, ih, List.exists_mem_cons_iff, hb]
    exact or_congr_left ⟨fun h => h ▸ rfl, fun h => (Except.ok.inj h).symm⟩

end Reading

/-! ### Numerals -/

namespace Text

theorem readNumeral_le {max n : Nat} {l : List Char} (h : readNumeral max l = some n) :
    n ≤ max := by
  rw [readNumeral] at h
  split at h
  · split at h
    · next hle => exact Option.some.inj h ▸ hle
    · exact absurd h (by simp)
  · exact absurd h (by simp)

theorem hexValue?_lt {c : Char} {n : Nat} (h : hexValue? c = some n) : n < 16 := by
  have hle : ∀ {a b : Char}, a ≤ b → a.toNat ≤ b.toNat := fun hab => hab
  rw [hexValue?] at h
  split at h
  · next hd =>
    obtain rfl := Option.some.inj h
    simp only [Char.isDigit, Bool.and_eq_true, decide_eq_true_eq] at hd
    have hup : c.toNat ≤ '9'.toNat := hd.2
    have h9 : '9'.toNat = 57 := rfl
    have h0 : '0'.toNat = 48 := rfl
    omega
  · split at h
    · next ha =>
      obtain rfl := Option.some.inj h
      have hup := hle ha.2
      have hf : 'f'.toNat = 102 := rfl
      have hlow : 'a'.toNat = 97 := rfl
      omega
    · split at h
      · next hA =>
        obtain rfl := Option.some.inj h
        have hup := hle hA.2
        have hf : 'F'.toNat = 70 := rfl
        have hlow : 'A'.toNat = 65 := rfl
        omega
      · exact absurd h (by simp)

end Text

/-! ### Addresses -/

namespace Address

theorem readOctet_lt {l : List Char} {n : Nat} (h : readOctet l = some n) : n < 256 := by
  rw [readOctet] at h
  split at h
  · exact absurd h (by simp)
  · exact Nat.lt_succ_of_le (Text.readNumeral_le h)

theorem readDotted_lt {l : List Char} {n : Nat} (h : readDotted l = some n) : n < 2 ^ 32 := by
  rw [readDotted] at h
  split at h
  · next a b c d _ =>
    simp only [bind, Option.bind_eq_some_iff, pure, Option.some.injEq] at h
    obtain ⟨a', ha, b', hb, c', hc, d', hd, rfl⟩ := h
    have := readOctet_lt ha
    have := readOctet_lt hb
    have := readOctet_lt hc
    have := readOctet_lt hd
    omega
  · exact absurd h (by simp)

/-- Each further digit makes the number sixteen times as large at most. -/
theorem foldlM_hex_lt {l : List Char} {m n : Nat}
    (h : l.foldlM (fun n c => (Text.hexValue? c).map (n * 16 + ·)) m = some n) :
    n < (m + 1) * 16 ^ l.length := by
  induction l generalizing m with
  | nil =>
    obtain rfl := Option.some.inj h
    simp
  | cons c rest ih =>
    rw [List.foldlM_cons] at h
    obtain ⟨k, hk, hrest⟩ := Option.bind_eq_some_iff.mp h
    obtain ⟨v, hv, rfl⟩ := Option.map_eq_some_iff.mp hk
    have hlt := Text.hexValue?_lt hv
    calc n < (m * 16 + v + 1) * 16 ^ rest.length := ih hrest
      _ ≤ ((m + 1) * 16) * 16 ^ rest.length := Nat.mul_le_mul_right _ (by omega)
      _ = (m + 1) * 16 ^ (c :: rest).length := by
        rw [List.length_cons, Nat.pow_succ', Nat.mul_assoc]

theorem readGroup_lt {l : List Char} {n : Nat} (h : readGroup l = some n) : n < 65536 := by
  rw [readGroup] at h
  split at h
  · exact absurd h (by simp)
  · next hlen =>
    have hle : l.length ≤ 4 := by omega
    have hpow : 16 ^ l.length ≤ 16 ^ 4 := Nat.pow_le_pow_right (by decide) hle
    have hlt := foldlM_hex_lt h
    omega

theorem readGroups_lt {l : List (List Char)} {gs : List Nat} (h : readGroups l = some gs) :
    ∀ g ∈ gs, g < 65536 := by
  fun_induction readGroups l generalizing gs with
  | case1 =>
    obtain rfl := Option.some.inj h
    exact fun g hg => absurd hg List.not_mem_nil
  | case2 last g hread =>
    obtain rfl := Option.some.inj h
    exact fun k hk => List.mem_singleton.mp hk ▸ readGroup_lt hread
  | case3 last hread =>
    obtain ⟨n, hn, rfl⟩ := Option.map_eq_some_iff.mp h
    have hlt := readDotted_lt hn
    simp only [List.mem_cons, List.not_mem_nil, or_false, forall_eq_or_imp, forall_eq]
    omega
  | case4 piece more hmore ih =>
    simp only [bind, Option.bind_eq_some_iff, pure, Option.some.injEq] at h
    obtain ⟨g, hg, rest, hrest, rfl⟩ := h
    exact List.forall_mem_cons.mpr ⟨readGroup_lt hg, ih hrest⟩

theorem ofGroups_lt {gs : List Nat} (h : ∀ g ∈ gs, g < 65536) :
    ofGroups gs < 65536 ^ gs.length := by
  suffices hgen : ∀ m, gs.foldl (fun n g => n * 65536 + g) m < (m + 1) * 65536 ^ gs.length by
    simpa [ofGroups] using hgen 0
  induction gs with
  | nil => simp
  | cons g rest ih =>
    intro m
    obtain ⟨hg, hrest⟩ := List.forall_mem_cons.mp h
    calc (g :: rest).foldl (fun n g => n * 65536 + g) m
        < (m * 65536 + g + 1) * 65536 ^ rest.length := ih hrest _
      _ ≤ ((m + 1) * 65536) * 65536 ^ rest.length := Nat.mul_le_mul_right _ (by omega)
      _ = (m + 1) * 65536 ^ (g :: rest).length := by
        rw [List.length_cons, Nat.pow_succ', Nat.mul_assoc]

/-- The groups of an address make up a number of 128 bits. -/
theorem ofGroups_lt_of_length {gs : List Nat} (hlen : gs.length = 8) (h : ∀ g ∈ gs, g < 65536) :
    ofGroups gs < 2 ^ 128 := by
  have hlt := ofGroups_lt h
  rwa [hlen] at hlt

theorem readSide_lt {l : List Char} {gs : List Nat} (h : readSide l = some gs) :
    ∀ g ∈ gs, g < 65536 := by
  rw [readSide] at h
  split at h
  · obtain rfl := Option.some.inj h
    exact fun g hg => absurd hg List.not_mem_nil
  · exact readGroups_lt h

/-- The groups before and after a gap, with zero groups in it. -/
theorem ofGroups_gap_lt {front back : List Nat} {n : Nat} (hfront : ∀ g ∈ front, g < 65536)
    (hback : ∀ g ∈ back, g < 65536)
    (h : (if front.length + back.length ≤ 7 then
      some (ofGroups (front ++ List.replicate (8 - front.length - back.length) 0 ++ back))
      else none) = some n) : n < 2 ^ 128 := by
  split at h
  · next hlen =>
    obtain rfl := Option.some.inj h
    refine ofGroups_lt_of_length ?_ fun g hg => ?_
    · simp only [List.length_append, List.length_replicate]
      omega
    · rcases List.mem_append.mp hg with hg | hg
      · rcases List.mem_append.mp hg with hg | hg
        · exact hfront g hg
        · exact List.eq_of_mem_replicate hg ▸ by decide
      · exact hback g hg
  · exact absurd h (by simp)

theorem readColoned_lt {l : List Char} {n : Nat} (h : readColoned l = some n) : n < 2 ^ 128 := by
  rw [readColoned] at h
  split at h
  · simp only [bind, Option.bind_eq_some_iff] at h
    obtain ⟨gs, hgs, h⟩ := h
    split at h
    · next hlen =>
      obtain rfl := Option.some.inj h
      exact ofGroups_lt_of_length hlen (readGroups_lt hgs)
    · exact absurd h (by simp)
  · dsimp only [bind] at h
    -- nothing before the gap stands for no groups
    split at h
    · obtain ⟨front, hnil, h⟩ := Option.bind_eq_some_iff.mp h
      obtain ⟨back, hback, h⟩ := Option.bind_eq_some_iff.mp h
      obtain rfl := Option.some.inj hnil
      exact ofGroups_gap_lt (fun g hg => absurd hg List.not_mem_nil) (readSide_lt hback) h
    · obtain ⟨front, hread, h⟩ := Option.bind_eq_some_iff.mp h
      obtain ⟨back, hback, h⟩ := Option.bind_eq_some_iff.mp h
      refine ofGroups_gap_lt (fun g hg => ?_) (readSide_lt hback) h
      obtain ⟨piece, -, hpiece⟩ := Reading.exists_of_mem_mapM_option hread hg
      exact readGroup_lt hpiece

/-- **An address that is read** makes a whole range with its lower bits. -/
theorem whole_of_read {f : Family} {l : List Char} {a : Nat} (h : read f l = some a) :
    f.Whole ⟨a, Block.endOf f a⟩ := by
  cases f with
  | ipv4 =>
    obtain ⟨n, hn, rfl⟩ := Option.map_eq_some_iff.mp h
    have hlt := readDotted_lt hn
    have hsize : blockSize Family.ipv4.bits = 2 ^ 96 := rfl
    have hstart : n <<< 96 = n * 2 ^ 96 := Nat.shiftLeft_eq n 96
    have hend : Block.endOf .ipv4 (n <<< 96) + 1 = (n + 1) * 2 ^ 96 := by
      rw [Block.endOf, hsize, hstart]
      omega
    refine ⟨?_, ?_, ?_⟩
    · show (n <<< 96) % blockSize Family.ipv4.bits = 0
      rw [hsize, hstart, Nat.mul_mod_left]
    · show (Block.endOf .ipv4 (n <<< 96) + 1) % blockSize Family.ipv4.bits = 0
      rw [hsize, hend, Nat.mul_mod_left]
    · show Block.endOf .ipv4 (n <<< 96) < space
      rw [space_eq]
      omega
  | ipv6 =>
    have hlt := readColoned_lt h
    exact ⟨Nat.mod_one _, Nat.mod_one _, hlt⟩

end Address

/-! ### Blocks -/

namespace Block

variable {f : Family} {l : List Block} {P Q : Nat → Prop}

/-- **A block that is read is whole.** -/
theorem whole_of_readAddresses {text : List Char} {b : Block}
    (h : readAddresses f text = some b) : f.Whole b := by
  rw [readAddresses] at h
  split at h
  · obtain ⟨p, hp, rfl⟩ := Option.map_eq_some_iff.mp h
    obtain ⟨⟨addr, len⟩, -, rfl⟩ := Option.map_eq_some_iff.mp hp
    exact Prefix.whole (Prefix.containing f addr len)
  · split at h
    · simp only [bind, Option.bind_eq_some_iff, pure, Option.some.injEq] at h
      obtain ⟨first, hfirst, last, hlast, rfl⟩ := h
      have hend := Address.whole_of_read hlast
      exact ⟨(Address.whole_of_read hfirst).start, hend.finish, hend.lt_space⟩
    · obtain ⟨addr, haddr, rfl⟩ := Option.map_eq_some_iff.mp h
      exact Address.whole_of_read haddr

/-- What is said of the starts and of the ends of all blocks of a list. -/
def Ends (P Q : Nat → Prop) (l : List Block) : Prop := ∀ b ∈ l, P b.min ∧ Q b.max

theorem Ends.cons {b : Block} (hb : P b.min ∧ Q b.max) (hl : Ends P Q l) : Ends P Q (b :: l) :=
  List.forall_mem_cons.mpr ⟨hb, hl⟩

theorem Ends.head {b : Block} (h : Ends P Q (b :: l)) : P b.min ∧ Q b.max :=
  h b List.mem_cons_self

theorem Ends.tail {b : Block} (h : Ends P Q (b :: l)) : Ends P Q l :=
  fun c hc => h c (List.mem_cons_of_mem b hc)

theorem ends_takeAscending (taken blocks : List Block) (ht : Ends P Q taken)
    (hb : Ends P Q blocks) :
    Ends P Q (takeAscending taken blocks).1 ∧ Ends P Q (takeAscending taken blocks).2 := by
  fun_induction takeAscending taken blocks with
  | case1 taken => exact ⟨ht, hb⟩
  | case2 b rest ih => exact ih (Ends.cons hb.head ht) hb.tail
  | case3 last taken b rest hlt => exact ⟨ht, hb⟩
  | case4 last taken b rest hge hin ih =>
    refine ih (Ends.cons ?_ ht.tail) hb.tail
    split
    · exact ⟨ht.head.1, hb.head.2⟩
    · exact ht.head
  | case5 last taken b rest hge hout hnext ih =>
    exact ih (Ends.cons ⟨ht.head.1, hb.head.2⟩ ht.tail) hb.tail
  | case6 last taken b rest hge hout hgap ih => exact ih (Ends.cons hb.head ht) hb.tail

theorem ends_place {b : Block} (hb : P b.min ∧ Q b.max) (hl : Ends P Q l) :
    Ends P Q (place b l) := by
  induction l with
  | nil => exact Ends.cons hb hl
  | cons c rest ih =>
    rw [place]
    split
    · refine Ends.cons ⟨?_, ?_⟩ hl.tail
      · show P (Min.min c.min b.min)
        rcases Nat.le_total c.min b.min with hle | hle
        · rw [Nat.min_eq_left hle]; exact hl.head.1
        · rw [Nat.min_eq_right hle]; exact hb.1
      · show Q (Max.max c.max b.max)
        rcases Nat.le_total c.max b.max with hle | hle
        · rw [Nat.max_eq_right hle]; exact hb.2
        · rw [Nat.max_eq_left hle]; exact hl.head.2
    · exact Ends.cons hl.head (ih hl.tail)

theorem ends_foldl_place {blocks : List Block} (hb : Ends P Q blocks) (hl : Ends P Q l) :
    Ends P Q (blocks.foldl (fun l b => place b l) l) := by
  induction blocks generalizing l with
  | nil => exact hl
  | cons b rest ih => exact ih hb.tail (ends_place hb.head hl)

theorem ends_joinFrom {a : Block} (h : Ends P Q (a :: l)) : Ends P Q (joinFrom a l) := by
  induction l generalizing a with
  | nil => exact h
  | cons b rest ih =>
    rw [joinFrom]
    split
    · exact ih (Ends.cons ⟨h.head.1, h.tail.head.2⟩ h.tail.tail)
    · exact Ends.cons h.head (ih h.tail)

/-- **Collecting makes up no ends**: what is true of all starts and of all ends stays true. -/
theorem ends_collect {blocks : List Block} (h : Ends P Q blocks) : Ends P Q (collect blocks) := by
  obtain ⟨ht, hrest⟩ := ends_takeAscending [] blocks (fun b hb => absurd hb List.not_mem_nil) h
  have htaken : Ends P Q (takeAscending [] blocks).1.reverse :=
    fun b hb => ht b (List.mem_reverse.mp hb)
  unfold collect
  split
  · next taken heq =>
    rw [heq] at htaken
    exact htaken
  · next taken rest hne heq =>
    rw [heq] at htaken hrest
    have hplaced := ends_foldl_place hrest htaken
    generalize rest.foldl (fun l b => place b l) taken.reverse = placed at hplaced
    have hsorted : Ends P Q (placed.mergeSort fun a b => decide (a.min ≤ b.min)) :=
      fun b hb => hplaced b (List.mem_mergeSort.mp hb)
    dsimp only
    cases hl : placed.mergeSort fun a b => decide (a.min ≤ b.min) with
    | nil => exact fun b hb => absurd hb List.not_mem_nil
    | cons a l => exact ends_joinFrom (hl ▸ hsorted)

/-- Blocks collected from whole ones are whole. -/
theorem whole_of_mem_collect {blocks : List Block} (h : ∀ b ∈ blocks, f.Whole b) {b : Block}
    (hb : b ∈ collect blocks) : f.Whole b := by
  have hends := ends_collect (P := fun n => n % Address.blockSize f.bits = 0)
    (Q := fun n => (n + 1) % Address.blockSize f.bits = 0 ∧ n < Address.space)
    (fun b hb => ⟨(h b hb).start, (h b hb).finish, (h b hb).lt_space⟩) b hb
  exact ⟨hends.1, hends.2.1, hends.2.2⟩

theorem whole_of_mem_intersection {l r : List Block} (hl : ∀ b ∈ l, f.Whole b)
    (hr : ∀ b ∈ r, f.Whole b) : ∀ b ∈ intersection l r, f.Whole b := by
  have hlater : ∀ {s o : Block}, f.Whole s → f.Whole o → ∀ {e : Nat},
      (e + 1) % Address.blockSize f.bits = 0 → e < Address.space →
      f.Whole ⟨Nat.max s.min o.min, e⟩ := by
    intro s o hs ho e hfinish hlt
    refine ⟨?_, hfinish, hlt⟩
    show (Max.max s.min o.min) % _ = 0
    rcases Nat.le_total s.min o.min with hle | hle
    · rw [Nat.max_eq_right hle]
      exact ho.start
    · rw [Nat.max_eq_left hle]
      exact hs.start
  fun_induction intersection l r with
  | case1 => exact fun b hb => absurd hb List.not_mem_nil
  | case2 => exact fun b hb => absurd hb List.not_mem_nil
  | case3 s ss o os _ ih => exact ih hl (List.forall_mem_cons.mp hr).2
  | case4 s ss o os _ _ ih =>
    obtain ⟨hs, hss⟩ := List.forall_mem_cons.mp hl
    exact List.forall_mem_cons.mpr ⟨hs, ih hss hr⟩
  | case5 s ss o os _ _ _ ih => exact ih (List.forall_mem_cons.mp hl).2 hr
  | case6 s ss o os _ _ _ _ ih =>
    obtain ⟨hs, hss⟩ := List.forall_mem_cons.mp hl
    obtain ⟨ho, -⟩ := List.forall_mem_cons.mp hr
    exact List.forall_mem_cons.mpr ⟨hlater hs ho hs.finish hs.lt_space, ih hss hr⟩
  | case7 s ss o os _ _ _ _ ih =>
    obtain ⟨hs, hss⟩ := List.forall_mem_cons.mp hl
    obtain ⟨ho, hos⟩ := List.forall_mem_cons.mp hr
    have hrest : f.Whole ⟨o.max + 1, s.max⟩ := ⟨ho.finish, hs.finish, hs.lt_space⟩
    exact List.forall_mem_cons.mpr
      ⟨hlater hs ho ho.finish ho.lt_space, ih (List.forall_mem_cons.mpr ⟨hrest, hss⟩) hos⟩

end Block

/-! ### Sets -/

namespace ResourceSet

variable {s t : ResourceSet} {f : Family} {b : Block} {l : List Item}

theorem whole_iff :
    s.Whole ↔ (∀ b ∈ s.ipv4, Family.ipv4.Whole b) ∧ ∀ b ∈ s.ipv6, Family.ipv6.Whole b := by
  refine ⟨fun h => ⟨h .ipv4, h .ipv6⟩, fun h f => ?_⟩
  cases f with
  | ipv4 => exact h.1
  | ipv6 => exact h.2

/-- The set of a prefix is whole. -/
theorem whole_ofPrefix (p : Prefix) : (ofPrefix p).Whole := by
  rw [whole_iff, ofPrefix]
  have hp := p.whole
  cases hf : p.family <;> simp_all

/-- Unions of whole sets are whole. -/
theorem Whole.union (hs : s.Whole) (ht : t.Whole) : (s.union t).Whole := by
  have hboth : ∀ f, ∀ b ∈ s.addresses f ++ t.addresses f, f.Whole b := by
    intro f b hb
    rcases List.mem_append.mp hb with hb | hb
    · exact hs f b hb
    · exact ht f b hb
  exact whole_iff.mpr ⟨fun b hb => Block.whole_of_mem_collect (hboth .ipv4) hb,
    fun b hb => Block.whole_of_mem_collect (hboth .ipv6) hb⟩

/-- What whole sets share is whole. -/
theorem Whole.intersection (hs : s.Whole) (ht : t.Whole) : (s.intersection t).Whole :=
  whole_iff.mpr ⟨Block.whole_of_mem_intersection (hs .ipv4) (ht .ipv4),
    Block.whole_of_mem_intersection (hs .ipv6) (ht .ipv6)⟩

/-- An item about addresses that is read is about a whole block. -/
theorem whole_of_readItem {text : List Char} {f : Family} {b : Block}
    (h : readItem text = .ok (.addresses f b)) : f.Whole b := by
  have haddress : ∀ g : Family, readAddressItem g text = .ok (.addresses f b) → f.Whole b := by
    intro g hg
    obtain ⟨c, hc, hg⟩ := Reading.bind_eq_ok.mp hg
    obtain ⟨d, hd, hg⟩ := Reading.bind_eq_ok.mp hg
    obtain ⟨rfl, rfl⟩ := Item.addresses.inj (Except.ok.inj hg)
    rw [requireOrder] at hd
    split at hd
    · exact nomatch hd
    · obtain rfl := Except.ok.inj hd
      exact Block.whole_of_readAddresses (Reading.ofOption_eq_ok.mp hc)
  rw [readItem] at h
  split at h
  · exact haddress .ipv6 h
  · split at h
    · exact haddress .ipv4 h
    · obtain ⟨c, -, h⟩ := Reading.bind_eq_ok.mp h
      obtain ⟨d, -, h⟩ := Reading.bind_eq_ok.mp h
      exact Item.noConfusion (Except.ok.inj h)

/-- The blocks of items, kind by kind, as they come. -/
def listed (l : List Item) : ResourceSet where
  asns := l.filterMap fun
    | .asns b => some b
    | .addresses _ _ => none
  ipv4 := l.filterMap fun
    | .addresses .ipv4 b => some b
    | _ => none
  ipv6 := l.filterMap fun
    | .addresses .ipv6 b => some b
    | _ => none

theorem mem_asns_listed : b ∈ (listed l).asns ↔ Item.asns b ∈ l := by
  refine List.mem_filterMap.trans ⟨?_, fun h => ⟨_, h, rfl⟩⟩
  rintro ⟨i, hi, hb⟩
  cases i with
  | asns c => exact Option.some.inj hb ▸ hi
  | addresses g c => exact absurd hb (by simp)

theorem mem_addresses_listed : b ∈ (listed l).addresses f ↔ Item.addresses f b ∈ l := by
  cases f with
  | ipv4 =>
    refine List.mem_filterMap.trans ⟨?_, fun h => ⟨_, h, rfl⟩⟩
    rintro ⟨i, hi, hb⟩
    split at hb
    · exact Option.some.inj hb ▸ hi
    · exact absurd hb (by simp)
  | ipv6 =>
    refine List.mem_filterMap.trans ⟨?_, fun h => ⟨_, h, rfl⟩⟩
    rintro ⟨i, hi, hb⟩
    split at hb
    · exact Option.some.inj hb ▸ hi
    · exact absurd hb (by simp)

theorem addresses_ofItems (l : List Item) (f : Family) :
    (ofItems l).addresses f = Block.collect ((listed l).addresses f) := by
  cases f <;> rfl

/-- **A set that is read is whole.** -/
theorem whole_of_read {text : String} (h : read text = .ok s) : s.Whole := by
  obtain ⟨l, hl, h⟩ := Reading.bind_eq_ok.mp h
  obtain rfl := Except.ok.inj h
  intro f b hb
  rw [addresses_ofItems] at hb
  refine Block.whole_of_mem_collect (fun c hc => ?_) hb
  obtain ⟨item, -, hread⟩ := (Reading.mem_of_mapM_eq_ok hl).mp (mem_addresses_listed.mp hc)
  exact whole_of_readItem hread

/-- A set that is read from three lists is whole. -/
theorem whole_of_readSeparate {asns ipv4 ipv6 : String}
    (h : readSeparate asns ipv4 ipv6 = .ok s) : s.Whole := by
  have hlist : ∀ {f : Family} {text : String} {l : List Block},
      readAddressList f text = .ok l → ∀ b ∈ l, f.Whole b := by
    intro f text l hl
    obtain ⟨blocks, hblocks, hl⟩ := Reading.bind_eq_ok.mp hl
    obtain rfl := Except.ok.inj hl
    refine fun b hb => Block.whole_of_mem_collect (fun c hc => ?_) hb
    obtain ⟨item, -, hread⟩ :=
      Reading.exists_of_mem_mapM_option (Reading.ofOption_eq_ok.mp hblocks) hc
    exact Block.whole_of_readAddresses hread
  obtain ⟨a, -, h⟩ := Reading.bind_eq_ok.mp h
  obtain ⟨v4, hv4, h⟩ := Reading.bind_eq_ok.mp h
  obtain ⟨v6, hv6, h⟩ := Reading.bind_eq_ok.mp h
  obtain rfl := Except.ok.inj h
  exact whole_iff.mpr ⟨hlist hv4, hlist hv6⟩

end ResourceSet

end RpkiAuthority
