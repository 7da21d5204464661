import RpkiAuthority.Resource.Set

/-!
# What collected block lists hold

A list of blocks is collected in two phases and with two kinds of joins, and the result need not
be the shortest list: blocks may overlap in it. What the rest of the library needs is less than a
normal form, and it survives every step.

* **No number is lost or gained** (`Block.holds_collect`). Every join replaces two blocks that touch
  by one that stands for the same numbers; this is the only place where it matters that the ends of
  each block are in order.
* **The starts ascend** (`Block.ascending_collect`). Overlaps do no harm to a walk that looks for
  one number as long as it may stop at the first block that starts too late
  (`Block.holds_eq_true_iff`).
* **A difference without blocks is a covering** (`Block.holds_of_difference_eq_nil`). The walk along
  two lists trusts them to be in normal form, but what it drops it has always seen covered, whatever
  the lists are.

The three facts are then read for sets of resources, of which only the AS numbers are walked through
one by one.
-/

namespace RpkiAuthority

namespace Block

/-! ### Numbers of a list of blocks -/

/-- The ends of all blocks of a list are in order. -/
def Ordered (l : List Block) : Prop := ∀ b ∈ l, b.min ≤ b.max

instance (l : List Block) : Decidable (Ordered l) :=
  inferInstanceAs (Decidable (∀ b ∈ l, b.min ≤ b.max))

/-- The blocks of a list start one after the other, or at the same number. -/
def Ascending (l : List Block) : Prop := l.Pairwise fun a b => a.min ≤ b.min

theorem mem_iff {n : Nat} {b : Block} : n ∈ b ↔ b.min ≤ n ∧ n ≤ b.max := Iff.rfl

@[simp] theorem not_holds_nil (n : Nat) : ¬Holds [] n := by
  rintro ⟨b, hb, -⟩
  exact absurd hb List.not_mem_nil

@[simp] theorem holds_cons {b : Block} {l : List Block} {n : Nat} :
    Holds (b :: l) n ↔ n ∈ b ∨ Holds l n := by
  simp only [Holds, List.mem_cons, exists_eq_or_imp]

@[simp] theorem holds_append {l r : List Block} {n : Nat} :
    Holds (l ++ r) n ↔ Holds l n ∨ Holds r n := by
  simp only [Holds, List.mem_append, or_and_right, exists_or]

@[simp] theorem holds_reverse {l : List Block} {n : Nat} : Holds l.reverse n ↔ Holds l n := by
  simp only [Holds, List.mem_reverse]

/-- Rearranging the blocks does not change the numbers. -/
theorem holds_perm {l r : List Block} (h : l.Perm r) (n : Nat) : Holds l n ↔ Holds r n := by
  simp only [Holds, h.mem_iff]

theorem Ordered.head {b : Block} {l : List Block} (h : Ordered (b :: l)) : b.min ≤ b.max :=
  h b List.mem_cons_self

theorem Ordered.tail {b : Block} {l : List Block} (h : Ordered (b :: l)) : Ordered l :=
  fun c hc => h c (List.mem_cons_of_mem b hc)

theorem Ordered.cons {b : Block} {l : List Block} (hb : b.min ≤ b.max) (hl : Ordered l) :
    Ordered (b :: l) := by
  intro c hc
  rcases List.mem_cons.mp hc with rfl | hc
  · exact hb
  · exact hl c hc

theorem Ordered.append {l r : List Block} (hl : Ordered l) (hr : Ordered r) :
    Ordered (l ++ r) := by
  intro b hb
  rcases List.mem_append.mp hb with hb | hb
  · exact hl b hb
  · exact hr b hb

/-! ### The two joins -/

/-- The hull of two blocks that touch stands for the numbers of both. -/
theorem mem_hull {a b : Block} (ha : a.min ≤ a.max) (hb : b.min ≤ b.max) (h : a.touches b = true)
    (n : Nat) : n ∈ a.hull b ↔ n ∈ a ∨ n ∈ b := by
  have hmin : (a.hull b).min = Min.min a.min b.min := rfl
  have hmax : (a.hull b).max = Max.max a.max b.max := rfl
  simp only [touches, meets, precedes, Bool.or_eq_true, Bool.and_eq_true, decide_eq_true_eq,
    beq_iff_eq] at h
  rw [mem_iff, mem_iff, mem_iff, hmin, hmax]
  omega

/-- Appending a block that starts right after another one stands for the numbers of both. -/
theorem mem_join {a b : Block} (ha : a.min ≤ a.max) (hb : b.min ≤ b.max)
    (h : a.precedes b = true) (n : Nat) : n ∈ (⟨a.min, b.max⟩ : Block) ↔ n ∈ a ∨ n ∈ b := by
  simp only [precedes, beq_iff_eq] at h
  simp only [mem_iff]
  omega

/-! ### The ascending phase

The list taken so far is kept with its last block first. Every block taken starts no earlier than
that one, so joining the two only ever moves an end upwards. -/

/-- What the ascending phase keeps: the ends in order, and the starts descending, since the list is
kept backwards. -/
structure Taken (taken : List Block) : Prop where
  ordered : Ordered taken
  descending : taken.Pairwise fun a b => b.min ≤ a.min

/-- Raising the end of the last block taken keeps the list as it has to be. -/
theorem Taken.raise {last : Block} {taken : List Block} (h : Taken (last :: taken)) {e : Nat}
    (he : last.min ≤ e) : Taken (⟨last.min, e⟩ :: taken) := by
  obtain ⟨hfirst, hrest⟩ := List.pairwise_cons.mp h.descending
  exact ⟨h.ordered.tail.cons he, List.pairwise_cons.mpr ⟨hfirst, hrest⟩⟩

/-- A block that starts no earlier than the last one can be taken as it is. -/
theorem Taken.push {last b : Block} {taken : List Block} (h : Taken (last :: taken))
    (hb : b.min ≤ b.max) (hle : last.min ≤ b.min) : Taken (b :: last :: taken) := by
  obtain ⟨hfirst, hrest⟩ := List.pairwise_cons.mp h.descending
  refine ⟨h.ordered.cons hb, List.pairwise_cons.mpr ⟨?_, h.descending⟩⟩
  intro c hc
  rcases List.mem_cons.mp hc with rfl | hc
  · exact hle
  · exact Nat.le_trans (hfirst c hc) hle

/-- **The ascending phase loses nothing**: it takes the first blocks, and the list taken is as the
second phase needs it and stands for the numbers of these blocks. -/
theorem takeAscending_spec (taken blocks : List Block) (ht : Taken taken) (hb : Ordered blocks) :
    Taken (takeAscending taken blocks).1 ∧
      ∃ first, blocks = first ++ (takeAscending taken blocks).2 ∧
        ∀ n, Holds (takeAscending taken blocks).1 n ↔ Holds taken n ∨ Holds first n := by
  fun_induction takeAscending taken blocks with
  | case1 taken => exact ⟨ht, [], rfl, fun n => by simp⟩
  | case2 b rest ih =>
    have hsingle : Taken [b] := ⟨fun c hc => List.mem_singleton.mp hc ▸ hb.head, by simp⟩
    obtain ⟨h1, first, h2, h3⟩ := ih hsingle hb.tail
    refine ⟨h1, b :: first, congrArg (b :: ·) h2, fun n => (h3 n).trans ?_⟩
    simp
  | case3 last taken b rest hlt => exact ⟨ht, [], rfl, fun n => by simp⟩
  | case4 last taken b rest hge hin ih =>
    -- the block starts inside the last one, which is longer afterwards or stays as it is
    have hlast := ht.ordered.head
    have hkept : Taken ((if last.max < b.max then ⟨last.min, b.max⟩ else last) :: taken) := by
      split
      · exact ht.raise (by omega)
      · exact ht
    obtain ⟨h1, first, h2, h3⟩ := ih hkept hb.tail
    refine ⟨h1, b :: first, congrArg (b :: ·) h2, fun n => (h3 n).trans ?_⟩
    have hbmax := hb.head
    have hmem : n ∈ (if last.max < b.max then (⟨last.min, b.max⟩ : Block) else last) ↔
        n ∈ last ∨ n ∈ b := by
      split <;> simp only [mem_iff] <;> omega
    rw [holds_cons, holds_cons, holds_cons, hmem]
    simp only [or_assoc, or_left_comm]
  | case5 last taken b rest hge hout hnext ih =>
    have hlast := ht.ordered.head
    have hbmax := hb.head
    obtain ⟨h1, first, h2, h3⟩ := ih (ht.raise (by omega)) hb.tail
    refine ⟨h1, b :: first, congrArg (b :: ·) h2, fun n => (h3 n).trans ?_⟩
    rw [holds_cons, holds_cons, holds_cons, mem_join hlast hbmax hnext]
    simp only [or_assoc, or_left_comm]
  | case6 last taken b rest hge hout hgap ih =>
    obtain ⟨h1, first, h2, h3⟩ := ih (ht.push hb.head (by omega)) hb.tail
    refine ⟨h1, b :: first, congrArg (b :: ·) h2, fun n => (h3 n).trans ?_⟩
    simp only [holds_cons]
    simp only [or_assoc, or_left_comm]

/-! ### The second phase -/

theorem ordered_place {b : Block} {l : List Block} (hb : b.min ≤ b.max) (hl : Ordered l) :
    Ordered (place b l) := by
  induction l with
  | nil => exact Ordered.cons hb hl
  | cons c rest ih =>
    rw [place]
    split
    · refine Ordered.cons ?_ hl.tail
      have hc := hl.head
      show Nat.min c.min b.min ≤ Nat.max c.max b.max
      exact Nat.le_trans (Nat.min_le_left _ _) (Nat.le_trans hc (Nat.le_max_left _ _))
    · exact Ordered.cons hl.head (ih hl.tail)

theorem holds_place {b : Block} {l : List Block} (hb : b.min ≤ b.max) (hl : Ordered l) (n : Nat) :
    Holds (place b l) n ↔ n ∈ b ∨ Holds l n := by
  induction l with
  | nil => rw [place, holds_cons]
  | cons c rest ih =>
    rw [place]
    split
    · next h =>
      rw [holds_cons, holds_cons, mem_hull hl.head hb h]
      simp only [or_assoc, or_comm]
    · rw [holds_cons, holds_cons, ih hl.tail]
      simp only [or_left_comm]

/-- Placing blocks one after the other keeps the ends in order and adds exactly their numbers. -/
theorem foldl_place_spec (blocks l : List Block) (hb : Ordered blocks) (hl : Ordered l) :
    Ordered (blocks.foldl (fun l b => place b l) l) ∧
      ∀ n, Holds (blocks.foldl (fun l b => place b l) l) n ↔ Holds l n ∨ Holds blocks n := by
  induction blocks generalizing l with
  | nil => exact ⟨hl, fun n => by simp⟩
  | cons b rest ih =>
    obtain ⟨h1, h2⟩ := ih (place b l) hb.tail (ordered_place hb.head hl)
    refine ⟨h1, fun n => (h2 n).trans ?_⟩
    rw [holds_place hb.head hl, holds_cons]
    simp only [or_assoc, or_left_comm, or_comm]

/-- Joining neighbours keeps the ends in order, the starts ascending, the first start and the
numbers. -/
theorem joinFrom_spec (a : Block) (l : List Block) (ho : Ordered (a :: l))
    (hs : Ascending (a :: l)) :
    Ordered (joinFrom a l) ∧ Ascending (joinFrom a l) ∧ (∀ b ∈ joinFrom a l, a.min ≤ b.min) ∧
      ∀ n, Holds (joinFrom a l) n ↔ n ∈ a ∨ Holds l n := by
  induction l generalizing a with
  | nil =>
    refine ⟨ho, hs, ?_, fun n => by rw [joinFrom, holds_cons]⟩
    intro b hb
    exact Nat.le_of_eq (congrArg Block.min (List.mem_singleton.mp hb)).symm
  | cons b rest ih =>
    obtain ⟨hab, hrest⟩ := List.pairwise_cons.mp hs
    obtain ⟨hbrest, -⟩ := List.pairwise_cons.mp hrest
    have ha := ho.head
    have hb := ho.tail.head
    have hle : a.min ≤ b.min := hab b List.mem_cons_self
    rw [joinFrom]
    split
    · next h =>
      have ho' : Ordered (⟨a.min, b.max⟩ :: rest) := ho.tail.tail.cons (by simp only; omega)
      have hs' : Ascending (⟨a.min, b.max⟩ :: rest) :=
        List.pairwise_cons.mpr
          ⟨fun c hc => hab c (List.mem_cons_of_mem b hc), (List.pairwise_cons.mp hrest).2⟩
      obtain ⟨h1, h2, h3, h4⟩ := ih _ ho' hs'
      refine ⟨h1, h2, h3, fun n => (h4 n).trans ?_⟩
      rw [mem_join ha hb h, holds_cons]
      simp only [or_assoc, or_left_comm, or_comm]
    · obtain ⟨h1, h2, h3, h4⟩ := ih b ho.tail hrest
      have hstart : ∀ c ∈ joinFrom b rest, a.min ≤ c.min := fun c hc => Nat.le_trans hle (h3 c hc)
      refine ⟨h1.cons ha, List.pairwise_cons.mpr ⟨hstart, h2⟩, ?_, fun n => ?_⟩
      · intro c hc
        rcases List.mem_cons.mp hc with rfl | hc
        · exact Nat.le_refl _
        · exact hstart c hc
      · rw [holds_cons, holds_cons, h4]

/-- Sorting by starts makes the starts ascend. -/
theorem ascending_mergeSort (l : List Block) :
    Ascending (l.mergeSort fun a b => decide (a.min ≤ b.min)) := by
  have h : (l.mergeSort fun a b => decide (a.min ≤ b.min)).Pairwise
      fun a b => decide (a.min ≤ b.min) = true := by
    refine List.pairwise_mergeSort (fun a b c => ?_) (fun a b => ?_) l
    · simp only [decide_eq_true_eq]
      exact Nat.le_trans
    · simp only [Bool.or_eq_true, decide_eq_true_eq]
      exact Nat.le_total _ _
  exact h.imp of_decide_eq_true

/-! ### Collected lists -/

/-- **Collecting blocks** whose ends are in order gives a list of such blocks with ascending starts
that stands for the same numbers. -/
theorem collect_spec {blocks : List Block} (h : Ordered blocks) :
    Ordered (collect blocks) ∧ Ascending (collect blocks) ∧
      ∀ n, Holds (collect blocks) n ↔ Holds blocks n := by
  have hnil : Taken [] := ⟨fun b hb => absurd hb List.not_mem_nil, .nil⟩
  obtain ⟨ht, first, hsplit, hfirst⟩ := takeAscending_spec [] blocks hnil h
  have hrest : Ordered (takeAscending [] blocks).2 :=
    fun b hb => h b (hsplit ▸ List.mem_append_right first hb)
  have hholds : ∀ n, Holds (takeAscending [] blocks).1 n ∨ Holds (takeAscending [] blocks).2 n ↔
      Holds blocks n := by
    intro n
    have happend : Holds blocks n ↔ Holds (first ++ (takeAscending [] blocks).2) n := by
      rw [← hsplit]
    rw [happend, holds_append, hfirst]
    simp
  have ho : Ordered (takeAscending [] blocks).1.reverse := by
    intro b hb
    exact ht.ordered b (List.mem_reverse.mp hb)
  have hs : Ascending (takeAscending [] blocks).1.reverse := List.pairwise_reverse.mpr ht.descending
  unfold collect
  split
  · next taken heq =>
    rw [heq] at ho hs hholds
    exact ⟨ho, hs, fun n => by simpa using hholds n⟩
  · next taken rest hne heq =>
    rw [heq] at ho hrest hholds
    obtain ⟨hp, hpholds⟩ := foldl_place_spec rest taken.reverse hrest ho
    -- from here on only what was placed matters, not how
    generalize hplaced : rest.foldl (fun l b => place b l) taken.reverse = placed at hp hpholds
    have hperm := List.mergeSort_perm placed fun a b => decide (a.min ≤ b.min)
    have hsorted := ascending_mergeSort placed
    have hnum : ∀ n, Holds (placed.mergeSort fun a b => decide (a.min ≤ b.min)) n ↔
        Holds blocks n := by
      intro n
      rw [holds_perm hperm, hpholds, holds_reverse, hholds]
    have hord : Ordered (placed.mergeSort fun a b => decide (a.min ≤ b.min)) :=
      fun b hb => hp b (hperm.mem_iff.mp hb)
    dsimp only
    cases hl : placed.mergeSort fun a b => decide (a.min ≤ b.min) with
    | nil =>
      rw [hl] at hnum
      exact ⟨fun b hb => absurd hb List.not_mem_nil, .nil, hnum⟩
    | cons a l =>
      rw [hl] at hnum hord hsorted
      obtain ⟨h1, h2, -, h4⟩ := joinFrom_spec a l hord hsorted
      exact ⟨h1, h2, fun n => ((h4 n).trans holds_cons.symm).trans (hnum n)⟩

theorem ordered_collect {blocks : List Block} (h : Ordered blocks) : Ordered (collect blocks) :=
  (collect_spec h).1

theorem ascending_collect {blocks : List Block} (h : Ordered blocks) :
    Ascending (collect blocks) :=
  (collect_spec h).2.1

theorem holds_collect {blocks : List Block} (h : Ordered blocks) (n : Nat) :
    Holds (collect blocks) n ↔ Holds blocks n :=
  (collect_spec h).2.2 n

theorem holds_union {l r : List Block} (hl : Ordered l) (hr : Ordered r) (n : Nat) :
    Holds (union l r) n ↔ Holds l n ∨ Holds r n :=
  (holds_collect (hl.append hr) n).trans holds_append

/-! ### Walks -/

/-- **The walk for one number** finds it exactly if it is there, on every list with ascending
starts. -/
theorem holds_eq_true_iff {n : Nat} {l : List Block} (hs : Ascending l) :
    holds n l = true ↔ Holds l n := by
  induction l with
  | nil => simp [holds]
  | cons b rest ih =>
    obtain ⟨hfirst, hrest⟩ := List.pairwise_cons.mp hs
    rw [holds, holds_cons, mem_iff]
    split
    · next hlt =>
      -- all later blocks start after the number, too
      have hnone : ¬Holds rest n := by
        rintro ⟨c, hc, hcn, -⟩
        have := hfirst c hc
        omega
      simp only [Bool.false_eq_true, hnone, or_false, false_iff]
      omega
    · next hge =>
      split
      · next hle => simp [hle, Nat.le_of_not_lt hge]
      · next hgt =>
        rw [ih hrest]
        simp only [hgt, and_false, false_or]

/-- Two blocks with their ends in order meet where they share a number. -/
theorem meets_iff {a b : Block} (ha : a.min ≤ a.max) (hb : b.min ≤ b.max) :
    a.meets b = true ↔ ∃ n, n ∈ a ∧ n ∈ b := by
  simp only [meets, Bool.and_eq_true, decide_eq_true_eq]
  constructor
  · rintro ⟨hab, hba⟩
    exact ⟨Nat.max a.min b.min, ⟨Nat.le_max_left _ _, Nat.max_le.mpr ⟨ha, hba⟩⟩,
      ⟨Nat.le_max_right _ _, Nat.max_le.mpr ⟨hab, hb⟩⟩⟩
  · rintro ⟨n, hna, hnb⟩
    exact ⟨Nat.le_trans hna.1 hnb.2, Nat.le_trans hnb.1 hna.2⟩

/-- The search for a block that meets another one finds the numbers they share. -/
theorem meetsAny_iff {l : List Block} {b : Block} (hl : Ordered l) (hb : b.min ≤ b.max) :
    meetsAny l b = true ↔ ∃ n ∈ b, Holds l n := by
  rw [meetsAny, List.any_eq_true]
  constructor
  · rintro ⟨c, hc, hmeets⟩
    obtain ⟨n, hnc, hnb⟩ := (meets_iff (hl c hc) hb).mp hmeets
    exact ⟨n, hnb, c, hc, hnc⟩
  · rintro ⟨n, hnb, c, hc, hnc⟩
    exact ⟨c, hc, (meets_iff (hl c hc) hb).mpr ⟨n, hnc, hnb⟩⟩

/-- **What the walk for the difference drops is covered**: where nothing is left, the second list
stands for all numbers of the first. Neither list has to be in normal form. -/
theorem holds_of_difference_eq_nil (l r : List Block) (h : difference l r = []) {n : Nat}
    (hn : Holds l n) : Holds r n := by
  fun_induction difference l r with
  | case1 => exact absurd hn (not_holds_nil n)
  | case2 | case3 | case4 | case5 | case6 | case7 => exact absurd h (List.cons_ne_nil _ _)
  | case8 s ss o os h1 h2 h3 ih =>
    rcases holds_cons.mp hn with hs | hs
    · rw [mem_iff] at hs
      refine holds_cons.mpr (Or.inl (mem_iff.mpr ⟨?_, ?_⟩)) <;> omega
    · exact ih h hs
  | case9 s ss o os h1 h2 h3 h4 ih =>
    rcases holds_cons.mp hn with hs | hs
    · rw [mem_iff] at hs
      refine holds_cons.mpr (Or.inl (mem_iff.mpr ⟨?_, ?_⟩)) <;> omega
    · exact holds_cons.mpr (Or.inr (ih h hs))
  | case10 s ss o os h1 h2 h3 h4 ih =>
    rcases holds_cons.mp hn with hs | hs
    · rw [mem_iff] at hs
      rcases Nat.lt_or_ge o.max n with hlt | hge
      · exact holds_cons.mpr (Or.inr (ih h (holds_cons.mpr (Or.inl ⟨hlt, hs.2⟩))))
      · refine holds_cons.mpr (Or.inl (mem_iff.mpr ⟨?_, hge⟩))
        omega
    · exact holds_cons.mpr (Or.inr (ih h (holds_cons.mpr (Or.inr hs))))
  | case11 s ss o os h1 h2 h3 h4 ih =>
    rcases holds_cons.mp hn with hs | hs
    · rw [mem_iff] at hs
      refine holds_cons.mpr (Or.inl (mem_iff.mpr ⟨?_, ?_⟩)) <;> omega
    · exact holds_cons.mpr (Or.inr (ih h hs))
  | case12 s ss o os h1 h2 h3 h4 ih =>
    rcases holds_cons.mp hn with hs | hs
    · rw [mem_iff] at hs
      rcases Nat.lt_or_ge o.max n with hlt | hge
      · exact holds_cons.mpr (Or.inr (ih h (holds_cons.mpr (Or.inl ⟨hlt, hs.2⟩))))
      · refine holds_cons.mpr (Or.inl (mem_iff.mpr ⟨?_, hge⟩))
        omega
    · exact holds_cons.mpr (Or.inr (ih h (holds_cons.mpr (Or.inr hs))))
  | case13 s ss o os h1 h2 h3 ih => exact holds_cons.mpr (Or.inr (ih h hn))

end Block

/-! ### Sets of resources -/

namespace ResourceSet

/-- The ends of all blocks are in order. -/
def Ordered (s : ResourceSet) : Prop :=
  Block.Ordered s.asns ∧ Block.Ordered s.ipv4 ∧ Block.Ordered s.ipv6

instance (s : ResourceSet) : Decidable s.Ordered :=
  inferInstanceAs (Decidable (_ ∧ _ ∧ _))

theorem Ordered.addresses {s : ResourceSet} (h : s.Ordered) (f : Family) :
    Block.Ordered (s.addresses f) := by
  cases f with
  | ipv4 => exact h.2.1
  | ipv6 => exact h.2.2

/-- The AS number is in one of the blocks. -/
def HoldsAsn (s : ResourceSet) (a : Asn) : Prop := Block.Holds s.asns a.toNat

theorem containsAsn_iff {s : ResourceSet} (h : Block.Ascending s.asns) (a : Asn) :
    s.containsAsn a = true ↔ s.HoldsAsn a :=
  Block.holds_eq_true_iff h

/-- **The union of many sets** stands, in each of its lists, for the numbers of them all. -/
theorem foldl_union_spec (blocks : ResourceSet → List Block)
    (hblocks : ∀ a b, blocks (a.union b) = Block.union (blocks a) (blocks b))
    {sets : List ResourceSet} (hsets : ∀ r ∈ sets, Block.Ordered (blocks r)) {s : ResourceSet}
    (hs : Block.Ordered (blocks s)) (hs' : Block.Ascending (blocks s)) :
    Block.Ordered (blocks (sets.foldl union s)) ∧ Block.Ascending (blocks (sets.foldl union s)) ∧
      ∀ n, Block.Holds (blocks (sets.foldl union s)) n ↔
        Block.Holds (blocks s) n ∨ ∃ r ∈ sets, Block.Holds (blocks r) n := by
  induction sets generalizing s with
  | nil => exact ⟨hs, hs', fun n => by simp⟩
  | cons r rest ih =>
    have hr := hsets r List.mem_cons_self
    have hunion := hs.append hr
    have hord : Block.Ordered (blocks (s.union r)) := hblocks s r ▸ Block.ordered_collect hunion
    have hasc : Block.Ascending (blocks (s.union r)) := hblocks s r ▸ Block.ascending_collect hunion
    obtain ⟨h1, h2, h3⟩ := ih (fun q hq => hsets q (List.mem_cons_of_mem r hq)) hord hasc
    refine ⟨h1, h2, fun n => (h3 n).trans ?_⟩
    rw [hblocks, Block.holds_union hs hr, or_assoc]
    simp only [List.mem_cons, exists_eq_or_imp]

/-- The set of some AS numbers holds exactly these. -/
theorem holds_asns_ofAsns {asns : List Asn} (n : Nat) :
    Block.Holds (ofAsns asns).asns n ↔ ∃ a ∈ asns, a.toNat = n := by
  have hord : Block.Ordered (asns.map fun a => Block.single a.toNat) :=
    List.forall_mem_map.mpr fun a _ => Nat.le_refl a.toNat
  refine (Block.holds_collect hord n).trans ⟨?_, ?_⟩
  · rintro ⟨b, hb, hn⟩
    obtain ⟨a, ha, rfl⟩ := List.mem_map.mp hb
    exact ⟨a, ha, Nat.le_antisymm hn.1 hn.2⟩
  · rintro ⟨a, ha, rfl⟩
    exact ⟨_, List.mem_map_of_mem ha, Nat.le_refl _, Nat.le_refl _⟩

theorem holds_ofAsns {asns : List Asn} (a : Asn) : (ofAsns asns).HoldsAsn a ↔ a ∈ asns := by
  refine (holds_asns_ofAsns a.toNat).trans ⟨?_, fun ha => ⟨a, ha, rfl⟩⟩
  rintro ⟨x, hx, hxa⟩
  have hxa : x = a := by
    cases x; cases a
    simpa using hxa
  exact hxa ▸ hx

/-- Where nothing is missing, all AS numbers of the first set are in the second. -/
theorem holds_of_difference_isEmpty {s t : ResourceSet} (h : (s.difference t).isEmpty = true)
    {a : Asn} (ha : s.HoldsAsn a) : t.HoldsAsn a := by
  simp only [isEmpty, Bool.and_eq_true, List.isEmpty_iff] at h
  exact Block.holds_of_difference_eq_nil s.asns t.asns h.1.1 ha

end ResourceSet

end RpkiAuthority
