import Mathlib.Data.List.Chain
import RpkiAuthority.Proofs.Resource.Walks

/-!
# When a collected list is in normal form

Collecting takes blocks in ascending order for as long as it can, and the list taken so far is in
normal form (`Block.normal_taken`). A block that comes out of order is joined with the **first**
block it touches and with no other. If it also reaches into a block further on, the two overlap from
then on: the block has *bridged* the gap between them (`Block.bridges`), and no later step mends
that.

So there are two kinds of facts about a collected list.

* Always its blocks have their ends in order, start one after the other, and have no neighbours that
  follow each other without a gap (`Block.joined_collect`). Such a list is in normal form exactly if
  no two blocks of it share a number (`Block.Joined.normal_iff`).
* Its blocks share no number **exactly if no block was a bridge** when it was placed
  (`Block.normal_collect_iff`).

Blocks that ascend are never placed, and blocks that share no number are never bridges, whatever
their order (`Block.unbridged_of_ascending`, `Block.unbridged_of_apart`). Blocks that add no number
to a list in normal form leave it as it is (`Block.collect_append_eq_self`).
-/

namespace RpkiAuthority

namespace Block

variable {l r taken blocks : List Block} {a b c : Block} {n : Nat}

/-! ### Blocks without a number in common -/

/-- No two blocks of a list meet. -/
def Apart (l : List Block) : Prop := l.Pairwise fun a b => a.meets b = false

theorem meets_comm (a b : Block) : a.meets b = b.meets a := Bool.and_comm _ _

theorem apart_cons : Apart (c :: l) ↔ meetsAny l c = false ∧ Apart l := by
  rw [Apart, List.pairwise_cons, meetsAny, List.any_eq_false]
  simp only [Bool.not_eq_true, meets_comm c]
  rfl

/-- The order of the blocks does not matter. -/
theorem apart_perm (h : l.Perm r) : Apart l ↔ Apart r :=
  h.pairwise_iff fun {a b} hab => meets_comm a b ▸ hab

/-- No block of a list meets the block if the list has none of its numbers. -/
theorem meetsAny_eq_false_iff (hl : Ordered l) (hb : b.min ≤ b.max) :
    meetsAny l b = false ↔ ∀ n ∈ b, ¬Holds l n := by
  rw [← Bool.not_eq_true, meetsAny_iff hl hb]
  simp only [not_exists, not_and]

/-! ### Lists without gaps to close -/

/-- **What every collected list is**: the ends in order, the starts ascending, and a gap or an
overlap between neighbours. -/
structure Joined (l : List Block) : Prop where
  ordered : Ordered l
  ascending : Ascending l
  gaps : l.IsChain fun a b => a.precedes b = false

theorem Joined.tail (h : Joined (b :: l)) : Joined l :=
  ⟨h.ordered.tail, (List.pairwise_cons.mp h.ascending).2, h.gaps.tail⟩

theorem Normal.joined (h : Normal l) : Joined l where
  ordered := h.ordered
  ascending := h.ascending
  gaps := (h.2.imp fun {a b} hab => by
    rw [precedes, beq_eq_false_iff_ne]
    omega).isChain

theorem Normal.apart (h : Normal l) : Apart l :=
  h.2.imp fun {a b} hab => by
    simp only [meets, Bool.and_eq_false_iff, decide_eq_false_iff_not]
    omega

/-- **All that is missing to the normal form** is that no two blocks share a number. -/
theorem Joined.normal_iff (h : Joined l) : Normal l ↔ Apart l := by
  refine ⟨Normal.apart, fun hapart => ?_⟩
  induction l with
  | nil => exact normal_nil
  | cons a l ih =>
    refine (normal_cons.mpr ⟨h.ordered.head, fun c hc => ?_,
      ih h.tail (List.pairwise_cons.mp hapart).2⟩)
    cases l with
    | nil => exact absurd hc List.not_mem_nil
    | cons b l =>
      -- the next block starts behind the first one and not right behind it
      have hnext := (List.pairwise_cons.mp hapart).1 b List.mem_cons_self
      have hstart := (List.pairwise_cons.mp h.ascending).1 b List.mem_cons_self
      have hgap := (List.isChain_cons_cons.mp h.gaps).1
      have hb := h.ordered.tail.head
      have hc' : b.min ≤ c.min := by
        rcases List.mem_cons.mp hc with rfl | hc
        · exact Nat.le_refl _
        · exact (List.pairwise_cons.mp h.tail.ascending).1 c hc
      simp only [meets, Bool.and_eq_false_iff, decide_eq_false_iff_not] at hnext
      rw [precedes, beq_eq_false_iff_ne] at hgap
      omega

/-! ### The ascending phase -/

theorem normal_reverse :
    Normal l.reverse ↔ Ordered l ∧ l.Pairwise fun a b => b.max + 1 < a.min := by
  simp only [Normal, Ordered, List.mem_reverse, List.pairwise_reverse]

/-- **What is taken in ascending order is in normal form.** The list is kept last block first. -/
theorem normal_taken (ht : Normal taken.reverse) (hb : Ordered blocks) :
    Normal (takeAscending taken blocks).1.reverse := by
  fun_induction takeAscending taken blocks with
  | case1 taken => exact ht
  | case2 b rest ih =>
    refine ih (normal_cons.mpr ⟨hb.head, ?_, normal_nil⟩) hb.tail
    exact fun c hc => absurd hc List.not_mem_nil
  | case3 last taken b rest hlt => exact ht
  | case4 last taken b rest hge hin ih =>
    refine ih ?_ hb.tail
    split
    · next hlong =>
      rw [normal_reverse, List.pairwise_cons] at ht ⊢
      have hlast := ht.1.head
      exact ⟨ht.1.tail.cons (by simp only; omega), ht.2⟩
    · exact ht
  | case5 last taken b rest hge hout hnext ih =>
    refine ih ?_ hb.tail
    rw [normal_reverse, List.pairwise_cons] at ht ⊢
    have hbmax := hb.head
    exact ⟨ht.1.tail.cons (by simp only; omega), ht.2⟩
  | case6 last taken b rest hge hout hgap ih =>
    refine ih ?_ hb.tail
    rw [normal_reverse] at ht ⊢
    obtain ⟨hfirst, -⟩ := List.pairwise_cons.mp ht.2
    rw [Bool.not_eq_true, precedes, beq_eq_false_iff_ne] at hgap
    refine ⟨ht.1.cons hb.head, List.pairwise_cons.mpr ⟨fun c hc => ?_, ht.2⟩⟩
    have hlast := ht.1.head
    rcases List.mem_cons.mp hc with rfl | hc
    · omega
    · have := hfirst c hc
      omega

/-- Blocks that ascend are all taken. -/
theorem untaken_eq_nil (hb : Ascending blocks)
    (ht : ∀ last ∈ taken.head?, ∀ b ∈ blocks, last.min ≤ b.min) :
    (takeAscending taken blocks).2 = [] := by
  fun_induction takeAscending taken blocks with
  | case1 taken => rfl
  | case2 b rest ih =>
    obtain ⟨hfirst, hrest⟩ := List.pairwise_cons.mp hb
    exact ih hrest fun last hlast => by
      obtain rfl := Option.some.inj hlast
      exact hfirst
  | case3 last taken b rest hlt =>
    exact absurd (ht last rfl b List.mem_cons_self) (Nat.not_le.mpr hlt)
  | case4 last taken b rest hge hin ih =>
    refine ih (List.pairwise_cons.mp hb).2 fun c hc => ?_
    obtain rfl := Option.some.inj hc
    split <;> exact fun d hd => ht last rfl d (List.mem_cons_of_mem b hd)
  | case5 last taken b rest hge hout hnext ih =>
    refine ih (List.pairwise_cons.mp hb).2 fun c hc => ?_
    obtain rfl := Option.some.inj hc
    exact fun d hd => ht last rfl d (List.mem_cons_of_mem b hd)
  | case6 last taken b rest hge hout hgap ih =>
    obtain ⟨hfirst, hrest⟩ := List.pairwise_cons.mp hb
    exact ih hrest fun c hc => by
      obtain rfl := Option.some.inj hc
      exact hfirst

/-! ### Bridges -/

/-- Whether a block meets one behind the first block it touches. -/
def bridges (b : Block) : List Block → Bool
  | [] => false
  | c :: rest => if c.touches b then meetsAny rest b else bridges b rest

/-- Whether blocks can be placed into a list one after the other without a bridge among them. -/
def placeable (l : List Block) : List Block → Bool
  | [] => true
  | b :: rest => !bridges b l && placeable (place b l) rest

/-- **No block that comes out of order is a bridge.** -/
def Unbridged (blocks : List Block) : Prop :=
  placeable (takeAscending [] blocks).1.reverse (takeAscending [] blocks).2 = true

instance (blocks : List Block) : Decidable (Unbridged blocks) :=
  inferInstanceAs (Decidable (_ = true))

/-- **Placing a block keeps the blocks apart exactly if it is no bridge.** -/
theorem apart_place (hb : b.min ≤ b.max) (hl : Ordered l) :
    Apart (place b l) ↔ Apart l ∧ bridges b l = false := by
  induction l with
  | nil => simp [place, bridges, Apart]
  | cons c rest ih =>
    have hc := hl.head
    have hrest := hl.tail
    rw [place, bridges]
    split
    · next htouch =>
      have hhull : (c.hull b).min ≤ (c.hull b).max :=
        Nat.le_trans (Nat.min_le_left _ _) (Nat.le_trans hc (Nat.le_max_left _ _))
      rw [apart_cons, apart_cons, meetsAny_eq_false_iff hrest hhull,
        meetsAny_eq_false_iff hrest hc, meetsAny_eq_false_iff hrest hb]
      simp only [mem_hull hc hb htouch, or_imp, forall_and]
      rw [and_right_comm]
    · next htouch =>
      -- the block does not touch the first one, so it cannot meet it
      have hmeets : ∀ n ∈ c, n ∉ b := by
        intro n hnc hnb
        have := (meets_iff hc hb).mpr ⟨n, hnc, hnb⟩
        simp [touches, this] at htouch
      rw [apart_cons, apart_cons, ih hrest, meetsAny_eq_false_iff (ordered_place hb hrest) hc,
        meetsAny_eq_false_iff hrest hc]
      simp only [holds_place hb hrest, not_or, and_assoc]
      exact and_congr_left' (forall₂_congr fun n hn => and_iff_right (hmeets n hn))

theorem apart_foldl_place (hb : Ordered blocks) (hl : Ordered l) :
    Apart (blocks.foldl (fun l b => place b l) l) ↔ Apart l ∧ placeable l blocks = true := by
  induction blocks generalizing l with
  | nil => simp [placeable]
  | cons b rest ih =>
    rw [List.foldl_cons, ih hb.tail (ordered_place hb.head hl), apart_place hb.head hl, placeable,
      Bool.and_eq_true, Bool.not_eq_true', and_assoc]

/-! ### Joining neighbours -/

/-- Joining neighbours starts with the first start. -/
theorem exists_joinFrom_eq (a : Block) (l : List Block) :
    ∃ e rest, joinFrom a l = ⟨a.min, e⟩ :: rest := by
  induction l generalizing a with
  | nil => exact ⟨a.max, [], rfl⟩
  | cons b l ih =>
    rw [joinFrom]
    split
    · exact ih ⟨a.min, b.max⟩
    · exact ⟨a.max, _, rfl⟩

/-- No neighbours are left to join. -/
theorem isChain_joinFrom (a : Block) (l : List Block) :
    (joinFrom a l).IsChain fun a b => a.precedes b = false := by
  induction l generalizing a with
  | nil => exact .singleton a
  | cons b l ih =>
    rw [joinFrom]
    split
    · exact ih _
    · next h =>
      obtain ⟨e, rest, heq⟩ := exists_joinFrom_eq b l
      have hrest := ih b
      rw [heq] at hrest ⊢
      exact .cons_cons (by simpa [precedes] using h) hrest

/-- Joining neighbours neither brings blocks apart nor together. -/
theorem apart_joinFrom (ho : Ordered (a :: l)) (hs : Ascending (a :: l)) :
    Apart (joinFrom a l) ↔ Apart (a :: l) := by
  induction l generalizing a with
  | nil => rfl
  | cons b l ih =>
    obtain ⟨hab, hrest⟩ := List.pairwise_cons.mp hs
    have ha := ho.head
    have hb := ho.tail.head
    have hl := ho.tail.tail
    rw [joinFrom]
    split
    · next h =>
      have hends : a.min ≤ b.max := Nat.le_trans (hab b List.mem_cons_self) hb
      have hs' : Ascending (⟨a.min, b.max⟩ :: l) :=
        List.pairwise_cons.mpr
          ⟨fun c hc => hab c (List.mem_cons_of_mem b hc), (List.pairwise_cons.mp hrest).2⟩
      have hmeets : ∀ n ∈ a, n ∉ b := by
        simp only [precedes, beq_iff_eq] at h
        intro n hna hnb
        rw [mem_iff] at hna hnb
        omega
      rw [ih (hl.cons hends) hs', apart_cons, apart_cons, apart_cons,
        meetsAny_eq_false_iff hl hends, meetsAny_eq_false_iff hl hb,
        meetsAny_eq_false_iff ho.tail ha]
      simp only [mem_join ha hb h, holds_cons, or_imp, not_or, forall_and]
      grind
    · obtain ⟨hjoined, -, -, hholds⟩ := joinFrom_spec b l ho.tail hrest
      rw [apart_cons, apart_cons, ih ho.tail hrest, meetsAny_eq_false_iff hjoined ha,
        meetsAny_eq_false_iff ho.tail ha]
      simp only [hholds, holds_cons]

/-! ### Collected lists -/

/-- **A collected list** has the blocks taken, or it comes from a list with ascending starts by
joining neighbours; that list is apart if no block was a bridge. -/
theorem collect_cases (h : Ordered blocks) :
    (collect blocks = (takeAscending [] blocks).1.reverse ∧ Unbridged blocks) ∨
      ∃ l, collect blocks = joinNeighbours l ∧ Ordered l ∧ Ascending l ∧
        (Apart l ↔ Unbridged blocks) := by
  have htaken : Normal (takeAscending [] blocks).1.reverse := normal_taken normal_nil h
  have hnil : Taken [] := ⟨fun b hb => absurd hb List.not_mem_nil, .nil⟩
  obtain ⟨-, first, hsplit, -⟩ := takeAscending_spec [] blocks hnil h
  have hrest : Ordered (takeAscending [] blocks).2 :=
    fun b hb => h b (hsplit ▸ List.mem_append_right first hb)
  have hplaced := (foldl_place_spec _ _ hrest htaken.ordered).1
  have hperm := List.mergeSort_perm
    ((takeAscending [] blocks).2.foldl (fun l b => place b l) (takeAscending [] blocks).1.reverse)
    fun a b => decide (a.min ≤ b.min)
  have hapart := (apart_foldl_place hrest htaken.ordered).trans (and_iff_right htaken.apart)
  unfold collect
  split
  · next taken heq =>
    refine .inl ⟨by rw [heq], ?_⟩
    rw [Unbridged, heq]
    rfl
  · next taken rest hne heq =>
    rw [Unbridged]
    rw [heq] at hplaced hperm hapart ⊢
    exact .inr ⟨_, rfl, fun b hb => hplaced b (hperm.mem_iff.mp hb), ascending_mergeSort _,
      (apart_perm hperm).trans hapart⟩

/-- **Every collected list** has the ends in order, ascending starts, and no neighbours to join. -/
theorem joined_collect (h : Ordered blocks) : Joined (collect blocks) := by
  have htaken : Normal (takeAscending [] blocks).1.reverse := normal_taken normal_nil h
  rcases collect_cases h with ⟨heq, -⟩ | ⟨l, heq, -, -, -⟩
  · exact heq ▸ htaken.joined
  · refine ⟨ordered_collect h, ascending_collect h, ?_⟩
    rw [heq]
    cases l with
    | nil => exact .nil
    | cons a l => exact isChain_joinFrom a l

/-- **A collected list is in normal form exactly if no block was a bridge.** -/
theorem normal_collect_iff (h : Ordered blocks) : Normal (collect blocks) ↔ Unbridged blocks := by
  have htaken : Normal (takeAscending [] blocks).1.reverse := normal_taken normal_nil h
  rcases collect_cases h with ⟨heq, hunbridged⟩ | ⟨l, heq, ho, hs, hiff⟩
  · exact heq ▸ iff_of_true htaken hunbridged
  · rw [(joined_collect h).normal_iff, ← hiff, heq]
    cases l with
    | nil => rfl
    | cons a l => exact apart_joinFrom ho hs

/-! ### Where there are no bridges -/

/-- Blocks in ascending order are never placed. -/
theorem unbridged_of_ascending (h : Ascending blocks) : Unbridged blocks := by
  have hnone : (takeAscending [] blocks).2 = [] :=
    untaken_eq_nil h fun last hlast => nomatch hlast
  rw [Unbridged, hnone]
  rfl

/-- A list in normal form is collected as it is. -/
theorem collect_eq_self (h : Normal l) : collect l = l :=
  ((normal_collect_iff h.ordered).mpr (unbridged_of_ascending h.ascending)).ext h
    (holds_collect h.ordered)

/-- A bridge meets a block. -/
theorem meetsAny_of_bridges (h : bridges b l = true) : meetsAny l b = true := by
  induction l with
  | nil => exact h
  | cons c l ih =>
    rw [bridges] at h
    rw [meetsAny, List.any_cons, Bool.or_eq_true]
    split at h
    · exact .inr h
    · exact .inr (ih h)

/-- Blocks that are apart, also from the list, can be placed without a bridge. -/
theorem placeable_of_apart (hb : Ordered blocks) (hl : Ordered l) (hapart : Apart blocks)
    (h : ∀ n, Holds blocks n → ¬Holds l n) : placeable l blocks = true := by
  induction blocks generalizing l with
  | nil => rfl
  | cons b rest ih =>
    rw [apart_cons, meetsAny_eq_false_iff hb.tail hb.head] at hapart
    have hmeets : meetsAny l b = false :=
      (meetsAny_eq_false_iff hl hb.head).mpr fun n hn => h n (holds_cons.mpr (.inl hn))
    have hbridge : bridges b l = false := by
      rw [← Bool.not_eq_true] at hmeets ⊢
      exact fun hc => hmeets (meetsAny_of_bridges hc)
    rw [placeable, hbridge, Bool.not_false, Bool.true_and]
    refine ih hb.tail (ordered_place hb.head hl) hapart.2 fun n hn hplace => ?_
    rcases (holds_place hb.head hl n).mp hplace with hnb | hnl
    · exact hapart.1 n hnb hn
    · exact h n (holds_cons.mpr (.inr hn)) hnl

/-- **Blocks that share no number are no bridges**, whatever their order. -/
theorem unbridged_of_apart (h : Ordered blocks) (hapart : Apart blocks) : Unbridged blocks := by
  have htaken : Normal (takeAscending [] blocks).1.reverse := normal_taken normal_nil h
  have hnil : Taken [] := ⟨fun b hb => absurd hb List.not_mem_nil, .nil⟩
  obtain ⟨-, first, hsplit, hfirst⟩ := takeAscending_spec [] blocks hnil h
  rw [Unbridged]
  generalize takeAscending [] blocks = phases at hsplit hfirst htaken ⊢
  obtain ⟨hone, hrest, hacross⟩ := List.pairwise_append.mp (hsplit ▸ hapart)
  have hordered : Ordered (first ++ phases.2) := hsplit ▸ h
  refine placeable_of_apart (fun b hb => hordered b (List.mem_append_right first hb))
    htaken.ordered hrest fun n hn hnt => ?_
  rw [holds_reverse, hfirst, or_iff_right (not_holds_nil n)] at hnt
  -- the number would be in a block of each part
  obtain ⟨b, hb, hnb⟩ := hn
  obtain ⟨c, hc, hnc⟩ := hnt
  have hmeets := (meets_iff (hordered c (List.mem_append_left _ hc))
    (hordered b (List.mem_append_right _ hb))).mpr ⟨n, hnc, hnb⟩
  rw [hacross c hc b hb] at hmeets
  exact absurd hmeets (by decide)

/-! ### Blocks that add nothing -/

/-- A block within one of a list in normal form is no bridge, and placing it changes nothing. -/
theorem place_eq_self (hl : Normal l) (hb : b.min ≤ b.max) (hc : c ∈ l)
    (h : c.covers b = true) : bridges b l = false ∧ place b l = l := by
  simp only [covers, Bool.and_eq_true, decide_eq_true_eq] at h
  induction l with
  | nil => exact absurd hc List.not_mem_nil
  | cons d rest ih =>
    rw [bridges, place]
    rcases List.mem_cons.mp hc with rfl | hc
    · have htouch : c.touches b = true := by
        have hmeets : c.meets b = true := by
          simp only [meets, Bool.and_eq_true, decide_eq_true_eq]
          omega
        rw [touches, hmeets, Bool.true_or, Bool.true_or]
      have hnone : meetsAny rest b = false := by
        refine (meetsAny_eq_false_iff hl.tail.ordered hb).mpr fun n hnb hn => ?_
        have := hl.lt_of_holds hn
        rw [mem_iff] at hnb
        omega
      have hhull : c.hull b = c := by
        show (⟨Min.min c.min b.min, Max.max c.max b.max⟩ : Block) = c
        rw [Nat.min_eq_left h.1, Nat.max_eq_left h.2]
      rw [if_pos htouch, if_pos htouch, hhull]
      exact ⟨hnone, rfl⟩
    · have htouch : d.touches b = false := by
        have hfirst := hl.first c hc
        have hd := hl.head
        simp only [touches, meets, precedes, Bool.or_eq_false_iff, Bool.and_eq_false_iff,
          decide_eq_false_iff_not, beq_eq_false_iff_ne]
        omega
      obtain ⟨hbridge, hplace⟩ := ih hl.tail hc
      rw [if_neg (by simp [htouch]), if_neg (by simp [htouch]), hplace]
      exact ⟨hbridge, rfl⟩

theorem placeable_of_covered (hl : Normal l) (hb : Ordered blocks)
    (h : ∀ b ∈ blocks, ∃ c ∈ l, c.covers b = true) : placeable l blocks = true := by
  induction blocks with
  | nil => rfl
  | cons b rest ih =>
    obtain ⟨hfirst, hrest⟩ := List.forall_mem_cons.mp h
    obtain ⟨c, hc, hcovers⟩ := hfirst
    obtain ⟨hbridge, hplace⟩ := place_eq_self hl hb.head hc hcovers
    rw [placeable, hbridge, hplace, ih hb.tail hrest]
    rfl

/-- A list in normal form is taken block by block. -/
theorem takeAscending_append (h : Normal (taken.reverse ++ l)) :
    takeAscending taken (l ++ r) = takeAscending (l.reverse ++ taken) r := by
  induction l generalizing taken with
  | nil => rfl
  | cons b l ih =>
    have hnext : Normal ((b :: taken).reverse ++ l) := by simpa using h
    have hstep : takeAscending taken (b :: l ++ r) = takeAscending (b :: taken) (l ++ r) := by
      cases taken with
      | nil => rfl
      | cons last taken =>
        have hlast : last ∈ (last :: taken).reverse := List.mem_reverse.mpr List.mem_cons_self
        have hends : last.min ≤ last.max := h.1 last (List.mem_append_left _ hlast)
        have hgap : last.max + 1 < b.min :=
          (List.pairwise_append.mp h.2).2.2 last hlast b List.mem_cons_self
        rw [List.cons_append, takeAscending, if_neg (by omega), if_neg (by omega),
          if_neg (by simp only [precedes, beq_iff_eq]; omega)]
    rw [hstep, ih hnext, List.reverse_cons, List.append_assoc]
    rfl

/-- Blocks within those taken are passed over until one comes out of order. -/
theorem takeAscending_eq_self (ht : Normal taken.reverse) (hb : Ordered blocks)
    (h : ∀ b ∈ blocks, ∃ c ∈ taken, c.covers b = true) :
    (takeAscending taken blocks).1 = taken := by
  induction blocks with
  | nil => rw [takeAscending]
  | cons b rest ih =>
    obtain ⟨⟨c, hc, hcovers⟩, hrest⟩ := List.forall_mem_cons.mp h
    have hbends := hb.head
    simp only [covers, Bool.and_eq_true, decide_eq_true_eq] at hcovers
    cases taken with
    | nil => exact absurd hc List.not_mem_nil
    | cons last taken =>
      rw [takeAscending]
      split
      · rfl
      · next hge =>
        obtain rfl : c = last := by
          rcases List.mem_cons.mp hc with rfl | hc
          · rfl
          · have := (List.pairwise_cons.mp (normal_reverse.mp ht).2).1 c hc
            omega
        rw [if_pos (by omega), if_neg (by omega)]
        exact ih hb.tail hrest

/-- **Blocks whose numbers are all in a list in normal form add nothing to it**, whatever their
order. -/
theorem collect_append_eq_self (hl : Normal l) (hr : Ordered r)
    (h : ∀ n, Holds r n → Holds l n) : collect (l ++ r) = l := by
  have hcovered : ∀ b ∈ r, ∃ c ∈ l, c.covers b = true := by
    intro b hb
    have hends := hr b hb
    obtain ⟨c, hc, hin⟩ := hl.exists_block hends fun m hm => h m ⟨b, hb, hm⟩
    have hmin := hin b.min ⟨Nat.le_refl _, hends⟩
    have hmax := hin b.max ⟨hends, Nat.le_refl _⟩
    refine ⟨c, hc, ?_⟩
    simp only [covers, Bool.and_eq_true, decide_eq_true_eq]
    exact ⟨hmin.1, hmax.2⟩
  have htaken : Normal (l.reverse).reverse := by rwa [List.reverse_reverse]
  have hunbridged : Unbridged (l ++ r) := by
    have hcovered' : ∀ b ∈ r, ∃ c ∈ l.reverse, c.covers b = true := by
      simpa only [List.mem_reverse] using hcovered
    have hstart : takeAscending [] (l ++ r) = takeAscending l.reverse r := by
      rw [takeAscending_append (by simpa using hl), List.append_nil]
    have ht : Taken l.reverse :=
      ⟨fun b hb => hl.ordered b (List.mem_reverse.mp hb), List.pairwise_reverse.mpr hl.ascending⟩
    obtain ⟨-, first, hsplit, -⟩ := takeAscending_spec l.reverse r ht hr
    have hrest : ∀ b ∈ (takeAscending l.reverse r).2, b ∈ r :=
      fun b hb => hsplit ▸ List.mem_append_right first hb
    rw [Unbridged, hstart, takeAscending_eq_self htaken hr hcovered', List.reverse_reverse]
    exact placeable_of_covered hl (fun b hb => hr b (hrest b hb))
      fun b hb => hcovered b (hrest b hb)
  have hboth : Ordered (l ++ r) := hl.ordered.append hr
  refine ((normal_collect_iff hboth).mpr hunbridged).ext hl fun n => ?_
  rw [holds_collect hboth, holds_append]
  exact ⟨fun hn => hn.elim id (h n), .inl⟩

end Block

end RpkiAuthority
