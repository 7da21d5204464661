import RpkiAuthority.Proofs.Resource.Decomposed

/-!
# Walks along lists in normal form

Intersection, difference and containment go along two lists once and never look back. On lists in
normal form that is enough (and what is taken away in a difference may even overlap, as long as its
blocks ascend):

| walk | what it finds | theorem |
|---|---|---|
| `intersection` | the numbers of both lists | `Block.holds_intersection` |
| `difference` | the numbers of the first list only | `Block.holds_difference` |
| `covered` | whether the first list has no further numbers | `Block.covered_iff` |

One remark carries all three: the numbers of the blocks behind the first one are larger than its end
by two at least (`Block.Normal.lt_of_holds`). So whichever of the two front blocks ends first can be
left behind for good, and what is kept of it is apart from whatever is kept later; this is why the
results are in normal form again. The ends that the walks compute, the number after an end and
the number before a start, lie within the block that is cut, so that they are never out of range.

A list in normal form is determined by its numbers (`Block.Normal.ext`).
-/

namespace RpkiAuthority

namespace Block

variable {l r : List Block} {b s o : Block} {m n : Nat}

/-! ### Normal form, block by block -/

theorem normal_nil : Normal [] := ⟨fun _ hb => absurd hb List.not_mem_nil, .nil⟩

theorem normal_cons :
    Normal (b :: l) ↔ b.min ≤ b.max ∧ (∀ c ∈ l, b.max + 1 < c.min) ∧ Normal l := by
  simp only [Normal, List.forall_mem_cons, List.pairwise_cons]
  refine ⟨fun ⟨⟨hb, hl⟩, hfirst, hrest⟩ => ⟨hb, hfirst, hl, hrest⟩, ?_⟩
  exact fun ⟨hb, hfirst, hl, hrest⟩ => ⟨⟨hb, hl⟩, hfirst, hrest⟩

theorem Normal.ordered (h : Normal l) : Ordered l := h.1

theorem Normal.tail (h : Normal (b :: l)) : Normal l := (normal_cons.mp h).2.2

theorem Normal.head (h : Normal (b :: l)) : b.min ≤ b.max := (normal_cons.mp h).1

theorem Normal.first (h : Normal (b :: l)) : ∀ c ∈ l, b.max + 1 < c.min := (normal_cons.mp h).2.1

theorem Normal.ascending (h : Normal l) : Ascending l := by
  induction l with
  | nil => exact .nil
  | cons b l ih =>
    refine List.pairwise_cons.mpr ⟨fun c hc => ?_, ih h.tail⟩
    have hb := h.head
    have hc := h.first c hc
    omega

/-- **Behind the first block** a number is missing, and all others are larger. -/
theorem Normal.lt_of_holds (h : Normal (b :: l)) (hn : Holds l n) : b.max + 1 < n := by
  obtain ⟨c, hc, hcn⟩ := hn
  exact Nat.lt_of_lt_of_le (h.first c hc) hcn.1

/-- All a walk needs to know of a front block: its ends are in order, and the numbers behind it are
larger. -/
theorem Normal.front (h : Normal (b :: l)) (n : Nat) :
    b.min ≤ b.max ∧ (Holds l n → b.max + 1 < n) :=
  ⟨h.head, h.lt_of_holds⟩

/-- Every block holds its own start. -/
theorem Normal.holds_min (h : Normal l) (hb : b ∈ l) : Holds l b.min :=
  ⟨b, hb, Nat.le_refl _, h.ordered b hb⟩

/-- Every block holds its own end. -/
theorem Normal.holds_max (h : Normal l) (hb : b ∈ l) : Holds l b.max :=
  ⟨b, hb, h.ordered b hb, Nat.le_refl _⟩

/-- **A block is put in front** of a list in normal form if the numbers of the list are larger than
its end, by two at least. -/
theorem Normal.push (hl : Normal l) (hb : b.min ≤ b.max) (h : ∀ n, Holds l n → b.max + 1 < n) :
    Normal (b :: l) :=
  normal_cons.mpr ⟨hb, fun c hc => h c.min (hl.holds_min hc), hl⟩

/-- The front block can be cut at its start. -/
theorem Normal.cut (h : Normal (b :: l)) (hm : m ≤ b.max) : Normal (⟨m, b.max⟩ :: l) :=
  normal_cons.mpr ⟨hm, h.first, h.tail⟩

/-- A list that holds nothing has no blocks. -/
theorem Normal.eq_nil (h : Normal l) (hnone : ∀ n, ¬Holds l n) : l = [] := by
  cases l with
  | nil => rfl
  | cons b l => exact absurd (holds_cons.mpr (.inl ⟨Nat.le_refl _, h.head⟩)) (hnone b.min)

/-- **The numbers determine the list.** -/
theorem Normal.ext (hl : Normal l) (hr : Normal r) (h : ∀ n, Holds l n ↔ Holds r n) : l = r := by
  induction l generalizing r with
  | nil => exact (hr.eq_nil fun n hn => not_holds_nil n ((h n).mpr hn)).symm
  | cons b l ih =>
    cases r with
    | nil => exact hl.eq_nil fun n hn => not_holds_nil n ((h n).mp hn)
    | cons c r =>
      have hb := hl.head
      have hc := hr.head
      have hlater : ∀ n, Holds l n → b.max + 1 < n := fun n => hl.lt_of_holds
      have hlater' : ∀ n, Holds r n → c.max + 1 < n := fun n => hr.lt_of_holds
      simp only [holds_cons, mem_iff] at h
      -- each list holds its first start, and no number right behind its first end
      have hmin : b.min = c.min := by
        have hstart := h b.min
        have hstart' := h c.min
        grind
      have hmax : b.max = c.max := by
        have hend := h (b.max + 1)
        have hend' := h (c.max + 1)
        grind
      obtain rfl : b = c := by cases b; cases c; simp_all
      refine congrArg (b :: ·) (ih hl.tail hr.tail fun n => ⟨fun hn => ?_, fun hn => ?_⟩)
      · have := hlater n hn
        exact ((h n).mp (.inr hn)).resolve_left fun hbn => by omega
      · have := hlater' n hn
        exact ((h n).mpr (.inr hn)).resolve_left fun hbn => by omega

/-! ### Intersection -/

/-- **The walk finds the numbers of both lists.** -/
theorem holds_intersection (hl : Normal l) (hr : Normal r) :
    Holds (intersection l r) n ↔ Holds l n ∧ Holds r n := by
  fun_induction intersection l r with
  | case1 => simp
  | case2 => simp
  | case3 s ss o os hlt ih =>
    have hs := hl.front n
    rw [ih hl hr.tail]
    simp only [holds_cons, mem_iff]
    grind
  | case4 s ss o os hge hcovers ih =>
    have hs := hl.front n
    simp only [covers, Bool.and_eq_true, decide_eq_true_eq] at hcovers
    rw [holds_cons, ih hl.tail hr]
    simp only [holds_cons, mem_iff]
    grind
  | case5 s ss o os hge hcovers hlt ih =>
    have ho := hr.front n
    rw [ih hl.tail hr]
    simp only [holds_cons, mem_iff]
    grind
  | case6 s ss o os hge hcovers hge' hle ih =>
    have ho := hr.front n
    have hmax : Nat.max s.min o.min = Max.max s.min o.min := rfl
    rw [holds_cons, ih hl.tail hr]
    simp only [holds_cons, mem_iff, hmax]
    grind
  | case7 s ss o os hge hcovers hge' hgt ih =>
    have hs := hl.front n
    have ho := hr.front n
    have hmax : Nat.max s.min o.min = Max.max s.min o.min := rfl
    rw [holds_cons, ih (hl.cut (by omega)) hr.tail]
    simp only [holds_cons, mem_iff, hmax]
    grind

/-- **What is found is in normal form**: what is kept of a block lies within a block of either list,
and one of the two is left behind with it. -/
theorem normal_intersection (hl : Normal l) (hr : Normal r) : Normal (intersection l r) := by
  fun_induction intersection l r with
  | case1 => exact normal_nil
  | case2 => exact normal_nil
  | case3 s ss o os hlt ih => exact ih hl hr.tail
  | case4 s ss o os hge hcovers ih =>
    exact (ih hl.tail hr).push hl.head fun n hn =>
      hl.lt_of_holds ((holds_intersection hl.tail hr).mp hn).1
  | case5 s ss o os hge hcovers hlt ih => exact ih hl.tail hr
  | case6 s ss o os hge hcovers hge' hle ih =>
    have hends : Nat.max s.min o.min ≤ s.max := Nat.max_le.mpr ⟨hl.head, by omega⟩
    exact (ih hl.tail hr).push hends fun n hn =>
      hl.lt_of_holds ((holds_intersection hl.tail hr).mp hn).1
  | case7 s ss o os hge hcovers hge' hgt ih =>
    have hcut := hl.cut (m := o.max + 1) (by omega)
    have hends : Nat.max s.min o.min ≤ o.max := Nat.max_le.mpr ⟨by omega, hr.head⟩
    exact (ih hcut hr.tail).push hends fun n hn =>
      hr.lt_of_holds ((holds_intersection hcut hr.tail).mp hn).2

/-! ### Difference

What is taken away need not be in normal form. It is enough that its blocks start one after the
other: then nothing that a walk has passed is missing from what it has kept. -/

/-- All the walk needs to know of a front block of the second list. -/
theorem Ascending.front (ho : Ordered (o :: r)) (hr : Ascending (o :: r)) (n : Nat) :
    o.min ≤ o.max ∧ (Holds r n → o.min ≤ n) :=
  ⟨ho.head, fun ⟨b, hb, hbn⟩ => Nat.le_trans ((List.pairwise_cons.mp hr).1 b hb) hbn.1⟩

theorem Ascending.tail (h : Ascending (b :: l)) : Ascending l := (List.pairwise_cons.mp h).2

/-- **The walk finds the numbers of the first list that are not in the second.** -/
theorem holds_difference (hl : Normal l) (ho : Ordered r) (hr : Ascending r) :
    Holds (difference l r) n ↔ Holds l n ∧ ¬Holds r n := by
  fun_induction difference l r with
  | case1 => simp
  | case2 s ss ih =>
    rw [holds_cons, ih hl.tail ho hr]
    simp
  | case3 s ss o os hlt hend ih | case4 s ss o os hlt hend hend' ih
  | case5 s ss o os hlt hend hend' hend'' ih =>
    have hs := hl.front n
    have hfront := hr.front ho n
    rw [holds_cons, ih hl.tail ho hr]
    simp only [holds_cons, mem_iff]
    grind
  | case6 s ss o os hlt hend hend' hend'' heq ih =>
    have hs := hl.front n
    have hfront := hr.front ho n
    rw [holds_cons, ih hl.tail ho.tail hr.tail]
    simp only [holds_cons, mem_iff]
    grind
  | case7 s ss o os hlt hend hend' hend'' hne ih =>
    have hs := hl.front n
    have hfront := hr.front ho n
    rw [holds_cons, ih (hl.cut (by omega)) ho.tail hr.tail]
    simp only [holds_cons, mem_iff]
    grind
  | case8 s ss o os hge hstart hend ih =>
    have hs := hl.front n
    have hfront := hr.front ho n
    rw [ih hl.tail ho hr]
    simp only [holds_cons, mem_iff]
    grind
  | case9 s ss o os hge hstart hend heq ih | case11 s ss o os hge hstart heq hone ih =>
    have hs := hl.front n
    have hfront := hr.front ho n
    rw [ih hl.tail ho.tail hr.tail]
    simp only [holds_cons, mem_iff]
    grind
  | case10 s ss o os hge hstart hend hne ih | case12 s ss o os hge hstart heq hne ih =>
    have hs := hl.front n
    have hfront := hr.front ho n
    rw [ih (hl.cut (by omega)) ho.tail hr.tail]
    simp only [holds_cons, mem_iff]
    grind
  | case13 s ss o os hge hstart hne ih =>
    have hs := hl.front n
    have hfront := hr.front ho n
    rw [ih hl ho.tail hr.tail]
    simp only [holds_cons, mem_iff]
    grind

/-- **What is left is in normal form**: what is kept of a block ends with the block, or right before
a block of the second list that is left behind with it. -/
theorem normal_difference (hl : Normal l) (ho : Ordered r) (hr : Ascending r) :
    Normal (difference l r) := by
  -- what is left of later blocks starts where these start, or later
  have hrest : ∀ {s : Block} {ss r : List Block}, Normal (s :: ss) → Ordered r → Ascending r →
      ∀ n, Holds (difference ss r) n → s.max + 1 < n :=
    fun hs ho hr n hn => hs.lt_of_holds ((holds_difference hs.tail ho hr).mp hn).1
  fun_induction difference l r with
  | case1 => exact normal_nil
  | case2 s ss ih => exact (ih hl.tail ho hr).push hl.head (hrest hl ho hr)
  | case3 s ss o os hlt hend ih => exact (ih hl.tail ho hr).push hl.head (hrest hl ho hr)
  | case4 s ss o os hlt hend hend' ih | case5 s ss o os hlt hend hend' hend'' ih =>
    refine (ih hl.tail ho hr).push (Nat.le_sub_one_of_lt hlt) fun n hn => ?_
    have hlater := hrest hl ho hr n hn
    show o.min - 1 + 1 < n
    omega
  | case6 s ss o os hlt hend hend' hend'' heq ih =>
    refine (ih hl.tail ho.tail hr.tail).push (Nat.le_sub_one_of_lt hlt) fun n hn => ?_
    have hlater := hrest hl ho.tail hr.tail n hn
    show o.min - 1 + 1 < n
    omega
  | case7 s ss o os hlt hend hend' hend'' hne ih =>
    have hcut := hl.cut (m := o.max + 1) (by omega)
    refine (ih hcut ho.tail hr.tail).push (Nat.le_sub_one_of_lt hlt) fun n hn => ?_
    have hs := hl.front n
    have hends := ho.head
    have hleft := ((holds_difference hcut ho.tail hr.tail).mp hn).1
    rw [holds_cons, mem_iff] at hleft
    show o.min - 1 + 1 < n
    grind
  | case8 s ss o os hge hstart hend ih => exact ih hl.tail ho hr
  | case9 s ss o os hge hstart hend heq ih | case11 s ss o os hge hstart heq hone ih =>
    exact ih hl.tail ho.tail hr.tail
  | case10 s ss o os hge hstart hend hne ih | case12 s ss o os hge hstart heq hne ih =>
    have hs := hl.head
    exact ih (hl.cut (by omega)) ho.tail hr.tail
  | case13 s ss o os hge hstart hne ih => exact ih hl ho.tail hr.tail

/-! ### Containment -/

theorem Normal.dropWhile (h : Normal l) (p : Block → Bool) : Normal (l.dropWhile p) :=
  ⟨fun b hb => h.1 b ((List.dropWhile_sublist p).mem hb), h.2.sublist (List.dropWhile_sublist p)⟩

/-- Blocks that end before a number can be dropped without losing a number from there on. -/
theorem holds_dropWhile (hle : m ≤ n) :
    Holds (l.dropWhile fun b => decide (b.max < m)) n ↔ Holds l n := by
  induction l with
  | nil => rfl
  | cons b l ih =>
    rw [List.dropWhile_cons]
    split
    · next hlt =>
      have hlt := of_decide_eq_true hlt
      have hnot : n ∉ b := fun hn => by
        rw [mem_iff] at hn
        omega
      rw [ih, holds_cons, or_iff_right hnot]
    · rfl

/-- A walk that succeeds has found every number of the first list. -/
theorem holds_of_covered (h : covered l r = true) (hn : Holds l n) : Holds r n := by
  induction l generalizing r with
  | nil => exact absurd hn (not_holds_nil n)
  | cons s ss ih =>
    have hsub := List.dropWhile_sublist (fun o : Block => decide (o.max < s.min)) (l := r)
    rw [covered] at h
    split at h
    · exact absurd h (by simp)
    · next o os heq =>
      rw [heq] at hsub
      simp only [covers, Bool.and_eq_true, decide_eq_true_eq] at h
      obtain ⟨⟨hstart, hend⟩, hrest⟩ := h
      have hfound : Holds (o :: os) n := by
        rcases holds_cons.mp hn with hs | hs
        · exact holds_cons.mpr (.inl ⟨Nat.le_trans hstart hs.1, Nat.le_trans hs.2 hend⟩)
        · exact ih hrest hs
      obtain ⟨b, hb, hbn⟩ := hfound
      exact ⟨b, hsub.mem hb, hbn⟩

/-- **The walk tells whether the second list has all numbers of the first**, if the second one is in
normal form. Of the first list only the order matters. -/
theorem covered_iff (ho : Ordered l) (hl : Ascending l) (hr : Normal r) :
    covered l r = true ↔ ∀ n, Holds l n → Holds r n := by
  refine ⟨fun h n => holds_of_covered h, fun h => ?_⟩
  induction l generalizing r with
  | nil => rw [covered]
  | cons s ss ih =>
    obtain ⟨hfirst, hrest⟩ := List.pairwise_cons.mp hl
    have hin : ∀ m, s.min ≤ m → Holds (s :: ss) m →
        Holds (r.dropWhile fun o => decide (o.max < s.min)) m :=
      fun m hm hsm => (holds_dropWhile hm).mpr (h m hsm)
    have hnormal := hr.dropWhile fun o => decide (o.max < s.min)
    have hkept := List.head?_dropWhile_not (fun o : Block => decide (o.max < s.min)) r
    rw [covered]
    generalize r.dropWhile (fun o => decide (o.max < s.min)) = left at hin hnormal hkept
    -- all numbers of the block are in one block of the second list, which is the first one left
    obtain ⟨b, hb, hbs⟩ := hnormal.exists_block ho.head fun m hm =>
      hin m hm.1 (holds_cons.mpr (.inl hm))
    have hbstart := hbs s.min ⟨Nat.le_refl _, ho.head⟩
    have hbend := hbs s.max ⟨ho.head, Nat.le_refl _⟩
    rw [mem_iff] at hbstart hbend
    cases left with
    | nil => exact absurd hb List.not_mem_nil
    | cons o os =>
      have hoend : s.min ≤ o.max := by simpa using hkept
      obtain rfl : b = o := by
        rcases List.mem_cons.mp hb with rfl | hb
        · rfl
        · have hlater := hnormal.first b hb
          omega
      have hcovers : b.covers s = true := by
        simp only [covers, Bool.and_eq_true, decide_eq_true_eq]
        exact ⟨hbstart.1, hbend.2⟩
      have hsub : covered ss (b :: os) = true := by
        refine ih ho.tail hrest hnormal fun m hm => hin m ?_ (holds_cons.mpr (.inr hm))
        obtain ⟨c, hc, hcm⟩ := hm
        exact Nat.le_trans (hfirst c hc) hcm.1
      show (b.covers s && covered ss (b :: os)) = true
      rw [hcovers, hsub, Bool.and_self]

end Block

end RpkiAuthority
