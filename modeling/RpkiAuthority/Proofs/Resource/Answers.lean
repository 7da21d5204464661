import RpkiAuthority.Proofs.Resource.Items

/-!
# What collected sets answer

Sets are asked two questions: whether an AS number is in them, and whether they share an address
with a prefix. Reading a text, putting AS numbers into a set and the union of sets all collect
blocks, list by list (`ResourceSet.collected`); they differ only in the blocks that they collect.

Collecting need not lead to a normal form, but the two questions do not need one. **A collected set
answers for the blocks as they came** (`ResourceSet.answers_collected`), in whatever order that was
and however they overlap. So the answers depend on the blocks only by the numbers in them
(`ResourceSet.Answers.same`).
-/

namespace RpkiAuthority

namespace ResourceSet

variable {s t : ResourceSet} {text : String} {asns : List Asn}

/-! ### Questions -/

/-- **What a set answers**: it contains these AS numbers, and overlaps the prefixes with one of
these addresses. -/
structure Answers (s : ResourceSet) (numbers : Asn → Prop) (addresses : Family → Nat → Prop) :
    Prop where
  containsAsn : ∀ a, s.containsAsn a = true ↔ numbers a
  overlaps : ∀ p : Prefix, s.overlaps p = true ↔ ∃ n ∈ p.block, addresses p.family n

/-- The two sets answer alike, whatever they are asked. -/
def SameAnswers (s t : ResourceSet) : Prop :=
  (∀ a, s.containsAsn a = t.containsAsn a) ∧ ∀ p, s.overlaps p = t.overlaps p

section

variable {numbers numbers' : Asn → Prop} {addresses addresses' : Family → Nat → Prop}

/-- Other words for what a set answers. -/
theorem Answers.congr (h : s.Answers numbers addresses) (hn : ∀ a, numbers a ↔ numbers' a)
    (ha : ∀ f n, addresses f n ↔ addresses' f n) : s.Answers numbers' addresses' where
  containsAsn a := (h.containsAsn a).trans (hn a)
  overlaps p := by simp only [h.overlaps, ha]

/-- Sets that answer for the same AS numbers and addresses answer alike. -/
theorem Answers.same (hs : s.Answers numbers addresses) (ht : t.Answers numbers addresses) :
    s.SameAnswers t :=
  ⟨fun a => Bool.eq_iff_iff.mpr ((hs.containsAsn a).trans (ht.containsAsn a).symm),
    fun p => Bool.eq_iff_iff.mpr ((hs.overlaps p).trans (ht.overlaps p).symm)⟩

end

/-! ### Collected sets -/

/-- The set whose lists are collected from the blocks of another one. -/
def collected (s : ResourceSet) : ResourceSet :=
  ⟨Block.collect s.asns, Block.collect s.ipv4, Block.collect s.ipv6⟩

/-- The blocks of one set and then those of another. -/
def beside (s t : ResourceSet) : ResourceSet :=
  ⟨s.asns ++ t.asns, s.ipv4 ++ t.ipv4, s.ipv6 ++ t.ipv6⟩

/-- A block for each AS number. -/
def singles (asns : List Asn) : ResourceSet :=
  ⟨asns.map fun a => Block.single a.toNat, [], []⟩

theorem union_eq_collected (s t : ResourceSet) : s.union t = (s.beside t).collected := rfl

theorem ofAsns_eq_collected (asns : List Asn) : ofAsns asns = (singles asns).collected := rfl

theorem read_eq_ok_iff :
    read text = .ok s ↔
      ∃ l, (items text.toList).mapM readItem = .ok l ∧ (listed l).collected = s := by
  rw [read, Reading.bind_eq_ok]
  exact exists_congr fun l => and_congr_right fun _ => ⟨Except.ok.inj, congrArg Except.ok⟩

theorem addresses_collected (s : ResourceSet) (f : Family) :
    s.collected.addresses f = Block.collect (s.addresses f) := by
  cases f <;> rfl

theorem addresses_beside (s t : ResourceSet) (f : Family) :
    (s.beside t).addresses f = s.addresses f ++ t.addresses f := by
  cases f <;> rfl

theorem ordered_singles (asns : List Asn) : (singles asns).Ordered := by
  refine ⟨fun b hb => ?_, fun b hb => absurd hb List.not_mem_nil,
    fun b hb => absurd hb List.not_mem_nil⟩
  obtain ⟨a, -, rfl⟩ := List.mem_map.mp hb
  exact Nat.le_refl _

theorem Ordered.beside (hs : s.Ordered) (ht : t.Ordered) : (s.beside t).Ordered :=
  ⟨hs.1.append ht.1, hs.2.1.append ht.2.1, hs.2.2.append ht.2.2⟩

theorem ordered_collected (h : s.Ordered) : s.collected.Ordered :=
  ⟨Block.ordered_collect h.1, Block.ordered_collect h.2.1, Block.ordered_collect h.2.2⟩

/-- **A collected set answers for the blocks as they came.** -/
theorem answers_collected (h : s.Ordered) : s.collected.Answers s.HoldsAsn s.HoldsAddress where
  containsAsn a :=
    (containsAsn_iff (Block.ascending_collect h.1) a).trans (Block.holds_collect h.1 a.toNat)
  overlaps p := by
    have haddresses := h.addresses p.family
    rw [overlaps, addresses_collected,
      Block.meetsAny_iff (Block.ordered_collect haddresses) p.addr_le_last]
    simp only [HoldsAddress, Block.holds_collect haddresses]

/-! ### Texts, AS numbers and unions -/

/-- An item of the text names the AS number. -/
def MentionsAsn (text : String) (a : Asn) : Prop := ∃ item ∈ items text.toList, NamesAsn item a

/-- An item of the text names the address. -/
def MentionsAddress (text : String) (f : Family) (n : Nat) : Prop :=
  ∃ item ∈ items text.toList, NamesAddress f item n

/-- **A set that is read answers for the items of its text.** -/
theorem answers_read (h : read text = .ok s) :
    s.Answers (MentionsAsn text) (MentionsAddress text) := by
  obtain ⟨l, hl, rfl⟩ := read_eq_ok_iff.mp h
  exact (answers_collected (ordered_listed hl)).congr (fun a => holdsAsn_listed hl)
    fun f n => holdsAddress_listed hl

/-- A text reads if each of its items does. -/
theorem exists_read_eq_ok_iff :
    (∃ s, read text = .ok s) ↔ ∀ item ∈ items text.toList, ∃ i, readItem item = .ok i := by
  rw [← Reading.exists_mapM_eq_ok_iff]
  simp only [read_eq_ok_iff]
  exact ⟨fun ⟨_, l, hl, _⟩ => ⟨l, hl⟩, fun ⟨l, hl⟩ => ⟨_, l, hl, rfl⟩⟩

/-- **The set of some AS numbers answers for these.** -/
theorem answers_ofAsns (asns : List Asn) : (ofAsns asns).Answers (· ∈ asns) fun _ _ => False := by
  refine (answers_collected (ordered_singles asns)).congr (fun a => ?_) fun f n => ?_
  · have hholds : (ofAsns asns).HoldsAsn a ↔ a ∈ asns := holds_ofAsns a
    rwa [ofAsns_eq_collected, HoldsAsn, collected, Block.holds_collect (ordered_singles asns).1]
      at hholds
  · cases f <;> exact iff_of_false (Block.not_holds_nil n) id

/-- **The union answers for both sets**, as far as their blocks have the ends in order. -/
theorem answers_union (hs : s.Ordered) (ht : t.Ordered) :
    (s.union t).Answers (fun a => s.HoldsAsn a ∨ t.HoldsAsn a)
      fun f n => s.HoldsAddress f n ∨ t.HoldsAddress f n := by
  refine (answers_collected (hs.beside ht)).congr (fun a => Block.holds_append) fun f n => ?_
  rw [HoldsAddress, addresses_beside, Block.holds_append]
  rfl

end ResourceSet

end RpkiAuthority
