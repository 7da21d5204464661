import RpkiAuthority.Bgp.Index
import RpkiAuthority.Proofs.Collection.Lookup
import RpkiAuthority.Proofs.Resource.Decomposed

/-!
# What the index answers about one prefix

The index is walked and searched, never scanned. Each of its three answers is shown to be the one a
scan of all announcements gives:

| question | answered by | theorem |
|---|---|---|
| what is announced within a prefix | two walks along the prefixes | `IndexOf.mem_containedIn` |
| which addresses nothing within it covers | a walk along these | `IndexOf.holds_gaps` |
| what is announced for its nearest ancestor | one search per length | `IndexOf.mem_lessSpecific` |

The walks rely on the order of the index. It ascends by prefix, and among the prefixes of one
family that means by first address, so that what starts before the prefix asked about comes first
and what starts behind it comes last. The prefixes in between may still be less specific ones that
start at the same address; those the index drops by their length.
-/

namespace RpkiAuthority

/-- Of the announcements of its family none is for a longer prefix around the address than this
one. -/
def RisEntry.IsNearest (e : RisEntry) (entries : List RisEntry) (n : Nat) : Prop :=
  n ∈ e.pfx.block ∧
    ∀ d ∈ entries, d.pfx.family = e.pfx.family → n ∈ d.pfx.block → d.pfx.len ≤ e.pfx.len

namespace FamilyIndex

variable {index : FamilyIndex} {f : Family} {entries : List RisEntry} {p q : Prefix}
  {e : RisEntry} {n : Nat}

/-! ### What is in the index -/

/-- The index of announcements of one family: for each prefix it has exactly those announced for it,
and it has no prefix for which there are none. -/
structure IndexOf (index : FamilyIndex) (f : Family) (entries : List RisEntry) : Prop where
  family_eq : ∀ e ∈ entries, e.pfx.family = f
  mem_iff : ∀ p e, e ∈ (index.find? p).getD [] ↔ e ∈ entries ∧ e.pfx = p
  announced : ∀ p, index.find? p ≠ none → ∃ e ∈ entries, e.pfx = p

theorem indexOf_empty (f : Family) : IndexOf OrdMap.empty f [] where
  family_eq _ he := absurd he List.not_mem_nil
  mem_iff p e := by simp
  announced p hp := absurd (OrdMap.find?_empty p) hp

/-- A further announcement is put with those for its prefix, unless it is known. -/
theorem IndexOf.add (h : IndexOf index f entries) (he : e.pfx.family = f) :
    IndexOf
      (if e ∈ (index.find? e.pfx).getD [] then index
        else index.insert e.pfx ((index.find? e.pfx).getD [] ++ [e])) f (entries ++ [e]) := by
  have hfamily : ∀ d ∈ entries ++ [e], d.pfx.family = f := by
    intro d hd
    rcases List.mem_append.mp hd with hd | hd
    · exact h.family_eq d hd
    · exact List.mem_singleton.mp hd ▸ he
  split
  · next hknown =>
    -- a known announcement adds nothing to the list either
    have hin : ∀ d, d ∈ entries ++ [e] ↔ d ∈ entries := by
      intro d
      rw [List.mem_append, List.mem_singleton, or_iff_left_iff_imp]
      rintro rfl
      exact ((h.mem_iff _ _).mp hknown).1
    refine ⟨hfamily, fun p d => by rw [h.mem_iff, hin], fun p hp => ?_⟩
    obtain ⟨d, hd, hpfx⟩ := h.announced p hp
    exact ⟨d, (hin d).mpr hd, hpfx⟩
  · next hnew =>
    refine ⟨hfamily, fun p d => ?_, fun p hp => ?_⟩
    · by_cases hpe : p = e.pfx
      · subst hpe
        rw [OrdMap.find?_insert_self, Option.getD_some, List.mem_append, List.mem_append,
          List.mem_singleton, h.mem_iff, or_and_right]
        refine or_congr_right ⟨?_, And.left⟩
        rintro rfl
        exact ⟨rfl, rfl⟩
      · rw [OrdMap.find?_insert_of_ne _ hpe, h.mem_iff, List.mem_append, List.mem_singleton,
          or_and_right]
        refine (or_iff_left ?_).symm
        rintro ⟨rfl, hpfx⟩
        exact hpe hpfx.symm
    · by_cases hpe : p = e.pfx
      · exact ⟨e, List.mem_append_right _ List.mem_cons_self, hpe.symm⟩
      · rw [OrdMap.find?_insert_of_ne _ hpe] at hp
        obtain ⟨d, hd, hpfx⟩ := h.announced p hp
        exact ⟨d, List.mem_append_left _ hd, hpfx⟩

/-- Announcements are put into the index one after the other. -/
theorem IndexOf.foldl_add (h : IndexOf index f entries) {more : List RisEntry}
    (hmore : ∀ e ∈ more, e.pfx.family = f) :
    IndexOf
      (more.foldl (fun index e =>
        let known := (index.find? e.pfx).getD []
        if e ∈ known then index else index.insert e.pfx (known ++ [e])) index)
      f (entries ++ more) := by
  induction more generalizing index entries with
  | nil => rwa [List.append_nil]
  | cons e rest ih =>
    have hstep := h.add (hmore e List.mem_cons_self)
    have hrest := ih hstep fun d hd => hmore d (List.mem_cons_of_mem e hd)
    rw [List.append_assoc] at hrest
    exact hrest

/-- **The index built from announcements** is the index of these. -/
theorem indexOf_build (h : ∀ e ∈ entries, e.pfx.family = f) : IndexOf (build entries) f entries :=
  (indexOf_empty f).foldl_add h

/-- The prefixes of the index are those of the announcements. -/
theorem IndexOf.mem_entries_iff (h : IndexOf index f entries) :
    (∃ l, (p, l) ∈ index.entries ∧ e ∈ l) ↔ e ∈ entries ∧ e.pfx = p := by
  rw [← h.mem_iff]
  constructor
  · rintro ⟨l, hl, he⟩
    rw [OrdMap.find?_eq_some_iff.mpr hl]
    exact he
  · intro he
    cases hfind : index.find? p with
    | none =>
      rw [hfind] at he
      exact absurd he List.not_mem_nil
    | some l =>
      rw [hfind] at he
      exact ⟨l, OrdMap.find?_eq_some_iff.mp hfind, he⟩

theorem IndexOf.exists_of_mem (h : IndexOf index f entries) {x : Prefix × List RisEntry}
    (hx : x ∈ index.entries) : ∃ e ∈ entries, e.pfx = x.1 := by
  refine h.announced x.1 ?_
  rw [OrdMap.find?_eq_some_iff.mpr (show (x.1, x.2) ∈ index.entries from hx)]
  exact Option.some_ne_none _

/-! ### What is announced within a prefix -/

/-- On a list that a condition cuts in two, taking while it holds is keeping what satisfies it. -/
theorem takeWhile_eq_filter {α : Type} {c : α → Bool} {l : List α}
    (h : l.Pairwise fun a b => c b = true → c a = true) : l.takeWhile c = l.filter c := by
  induction l with
  | nil => rfl
  | cons a rest ih =>
    obtain ⟨hfirst, hrest⟩ := List.pairwise_cons.mp h
    by_cases ha : c a = true
    · rw [List.takeWhile_cons_of_pos ha, List.filter_cons_of_pos ha, ih hrest]
    · rw [List.takeWhile_cons_of_neg ha, List.filter_cons_of_neg ha]
      exact (List.filter_eq_nil_iff.mpr fun b hb hc => ha (hfirst b hb hc)).symm

/-- On a list that a condition cuts in two, dropping while it holds is keeping what does not satisfy
it. -/
theorem dropWhile_eq_filter {α : Type} {c : α → Bool} {l : List α}
    (h : l.Pairwise fun a b => c b = true → c a = true) :
    l.dropWhile c = l.filter fun a => !c a := by
  induction l with
  | nil => rfl
  | cons a rest ih =>
    obtain ⟨hfirst, hrest⟩ := List.pairwise_cons.mp h
    by_cases ha : c a = true
    · rw [List.dropWhile_cons_of_pos ha, List.filter_cons_of_neg (by simp [ha]), ih hrest]
    · rw [List.dropWhile_cons_of_neg ha]
      refine (List.filter_eq_self.mpr fun b hb => ?_).symm
      rcases List.mem_cons.mp hb with rfl | hb
      · simpa using ha
      · simpa using fun hc => ha (hfirst b hb hc)

/-- Among prefixes of one family the order is by first address before anything else. -/
theorem addr_le_of_compare (hf : p.family = q.family) (h : compare p q = .lt) :
    p.addr ≤ q.addr := by
  refine Nat.le_of_not_lt fun hgt => ?_
  rw [Prefix.compare_eq, hf, Std.ReflOrd.compare_self, Nat.compare_eq_gt.mpr hgt] at h
  exact absurd h (by simp)

/-- All prefixes of the index are of one family. -/
def OfFamily (index : FamilyIndex) (f : Family) : Prop := ∀ x ∈ index.entries, x.1.family = f

instance (index : FamilyIndex) (f : Family) : Decidable (OfFamily index f) :=
  inferInstanceAs (Decidable (∀ x ∈ index.entries, x.1.family = f))

theorem IndexOf.ofFamily (h : IndexOf index f entries) : index.OfFamily f := by
  intro x hx
  obtain ⟨e, he, hpfx⟩ := h.exists_of_mem hx
  exact hpfx ▸ h.family_eq e he

/-- **The index ascends** by first address. -/
theorem OfFamily.ascending (h : index.OfFamily f) :
    index.entries.Pairwise fun x y => x.1.addr ≤ y.1.addr :=
  index.ascending.imp_of_mem fun {x y} hx hy hlt =>
    addr_le_of_compare ((h x hx).trans (h y hy).symm) hlt

/-- **The prefixes found** are those all of whose addresses are in the given one. The walks find
those that start in it and are no shorter. -/
theorem OfFamily.mem_moreSpecific (h : index.OfFamily f) {x : Prefix × List RisEntry} :
    x ∈ index.moreSpecific p ↔ x ∈ index.entries ∧ ∀ n ∈ x.1.block, n ∈ p.block := by
  have hasc := h.ascending
  have hfrom := hasc.imp (S := fun x y => decide (y.1.addr < p.addr) = true →
    decide (x.1.addr < p.addr) = true) fun hle hy => by
      simp only [decide_eq_true_eq] at hy ⊢
      omega
  have hto := hasc.imp (S := fun x y => decide (y.1.addr ≤ p.last) = true →
    decide (x.1.addr ≤ p.last) = true) fun hle hy => by
      simp only [decide_eq_true_eq] at hy ⊢
      omega
  rw [Prefix.subset_iff, moreSpecific, dropWhile_eq_filter hfrom,
    takeWhile_eq_filter (hto.filter _)]
  simp only [List.mem_filter, decide_eq_true_eq, Bool.not_eq_true', decide_eq_false_iff_not,
    Nat.not_lt]
  exact ⟨fun hx => ⟨hx.1.1.1, hx.2, hx.1.1.2, hx.1.2⟩,
    fun hx => ⟨⟨⟨hx.1, hx.2.2.1⟩, hx.2.2.2⟩, hx.2.1⟩⟩

/-- They come in the order of the index. -/
theorem moreSpecific_sublist (index : FamilyIndex) (p : Prefix) :
    (index.moreSpecific p).Sublist index.entries :=
  (List.filter_sublist.trans (List.takeWhile_sublist _)).trans (List.dropWhile_sublist _)

/-- **What is announced within a prefix** is what is announced for a prefix all of whose addresses
are in it. -/
theorem IndexOf.mem_containedIn (h : IndexOf index f entries) :
    e ∈ index.containedIn p ↔ e ∈ entries ∧ ∀ n ∈ e.pfx.block, n ∈ p.block := by
  rw [containedIn, List.mem_flatMap]
  constructor
  · rintro ⟨x, hx, he⟩
    obtain ⟨hx, hin⟩ := h.ofFamily.mem_moreSpecific.mp hx
    obtain ⟨he, hpfx⟩ := h.mem_entries_iff.mp ⟨x.2, hx, he⟩
    rw [hpfx]
    exact ⟨he, hin⟩
  · rintro ⟨he, hin⟩
    obtain ⟨l, hl, hel⟩ := h.mem_entries_iff.mpr ⟨he, rfl⟩
    exact ⟨(e.pfx, l), h.ofFamily.mem_moreSpecific.mpr ⟨hl, hin⟩, hel⟩

/-! ### Which addresses nothing within a prefix covers -/

/-- The address comes no earlier than the one the walk carries. -/
def Reaches (next : Option Nat) (n : Nat) : Prop := ∃ m, next = some m ∧ m ≤ n

theorem reaches_some {m : Nat} : Reaches (some m) n ↔ m ≤ n :=
  ⟨fun ⟨_, hm, hle⟩ => Option.some.inj hm ▸ hle, fun hle => ⟨m, rfl, hle⟩⟩

theorem not_reaches_none : ¬Reaches none n := by
  rintro ⟨m, hm, -⟩
  exact absurd hm (by simp)

/-- Past a prefix, the walk carries on with the addresses behind it. -/
theorem reaches_past {next m : Nat} (hn : n < Address.space) :
    Reaches (if next ≤ m then addressAfter m else some next) n ↔ next ≤ n ∧ (next ≤ m → m < n) := by
  rw [addressAfter]
  split
  · split
    · rw [reaches_some]
      omega
    · -- nothing is left behind the last address of all
      refine iff_of_false not_reaches_none ?_
      omega
  · rw [reaches_some]
    omega

/-- What the walk finds before the next prefix. -/
theorem holds_before {next : Nat} :
    Block.Holds (if next < p.addr then [⟨next, p.addr - 1⟩] else []) n ↔
      next ≤ n ∧ n < p.addr := by
  split
  · rw [Block.holds_cons, or_iff_left (Block.not_holds_nil n), Block.mem_iff]
    show next ≤ n ∧ n ≤ p.addr - 1 ↔ _
    omega
  · refine iff_of_false (Block.not_holds_nil n) ?_
    omega

/-- **The walk along prefixes** in ascending order finds the addresses none of them has. -/
theorem holds_gapsFrom {last : Nat} (hlast : last < Address.space) {next : Option Nat}
    {ps : List Prefix} (hasc : ps.Pairwise fun p q => p.addr ≤ q.addr)
    (hend : ∀ p ∈ ps, p.last ≤ last) :
    Block.Holds (gapsFrom last next ps) n ↔
      Reaches next n ∧ n ≤ last ∧ ∀ p ∈ ps, n ∉ p.block := by
  fun_induction gapsFrom last next ps with
  | case1 ps =>
    exact iff_of_false (Block.not_holds_nil n) fun h => not_reaches_none h.1
  | case2 next hle =>
    rw [Block.holds_cons, or_iff_left (Block.not_holds_nil n), reaches_some, Block.mem_iff]
    simp
  | case3 next hgt =>
    refine iff_of_false (Block.not_holds_nil n) fun h => ?_
    have hle := reaches_some.mp h.1
    have hle' := h.2.1
    omega
  | case4 next p rest ih =>
    obtain ⟨hfirst, hrest⟩ := List.pairwise_cons.mp hasc
    have hp := hend p List.mem_cons_self
    have haddr := p.addr_le_last
    rw [Block.holds_append, holds_before, ih hrest fun q hq => hend q (List.mem_cons_of_mem p hq),
      reaches_some, List.forall_mem_cons]
    rcases Nat.lt_or_ge n p.addr with hlt | hge
    · -- all prefixes left start behind the address
      have hnot : n ∉ p.block := fun hn => absurd hn.1 (Nat.not_le.mpr hlt)
      have hnone : ∀ q ∈ rest, n ∉ q.block := by
        intro q hq hn
        exact absurd (Nat.le_trans (hfirst q hq) hn.1) (Nat.not_le.mpr hlt)
      have hle : n ≤ last := by omega
      -- whether it was passed before is all that counts
      refine ⟨?_, fun h => Or.inl ⟨h.1, hlt⟩⟩
      rintro (h | h)
      · exact ⟨h.1, hle, hnot, hnone⟩
      · refine ⟨?_, hle, hnot, hnone⟩
        exact ((reaches_past (Nat.lt_of_le_of_lt hle hlast)).mp h.1).1
    · rw [or_iff_right fun h => absurd h.2 (Nat.not_lt.mpr hge)]
      have hpast : n ≤ last →
          (Reaches (if next ≤ p.last then addressAfter p.last else some next) n ↔
            next ≤ n ∧ n ∉ p.block) := by
        intro hle
        have hmem : n ∈ p.block ↔ n ≤ p.last := and_iff_right hge
        rw [reaches_past (Nat.lt_of_le_of_lt hle hlast), hmem]
        omega
      constructor
      · rintro ⟨hreach, hle, hnone⟩
        obtain ⟨hnext, hnot⟩ := (hpast hle).mp hreach
        exact ⟨hnext, hle, hnot, hnone⟩
      · rintro ⟨hnext, hle, hnot, hnone⟩
        exact ⟨(hpast hle).mpr ⟨hnext, hnot⟩, hle, hnone⟩

/-- The ranges between whole ones are whole. -/
theorem whole_of_mem_gapsFrom {last : Nat} (hlast : last < Address.space)
    (hfinish : (last + 1) % Address.blockSize f.bits = 0) {next : Option Nat}
    (hnext : ∀ m, next = some m → m % Address.blockSize f.bits = 0) {ps : List Prefix}
    (hend : ∀ p ∈ ps, p.family = f ∧ p.last ≤ last) {g : Block} (hg : g ∈ gapsFrom last next ps) :
    f.Whole g := by
  fun_induction gapsFrom last next ps with
  | case1 ps => exact absurd hg List.not_mem_nil
  | case2 next hle =>
    obtain rfl := List.mem_singleton.mp hg
    exact ⟨hnext next rfl, hfinish, hlast⟩
  | case3 next hgt => exact absurd hg List.not_mem_nil
  | case4 next p rest ih =>
    obtain ⟨rfl, hp⟩ := hend p List.mem_cons_self
    have hwhole := p.whole
    have haddr := p.addr_le_last
    rcases List.mem_append.mp hg with hg | hg
    · split at hg
      · next hlt =>
        obtain rfl := List.mem_singleton.mp hg
        refine ⟨hnext next rfl, ?_, ?_⟩
        · show (p.addr - 1 + 1) % _ = 0
          rw [Nat.sub_add_cancel (Nat.one_le_of_lt hlt)]
          exact hwhole.start
        · show p.addr - 1 < Address.space
          omega
      · exact absurd hg List.not_mem_nil
    · refine ih (fun m hm => ?_) (fun q hq => hend q (List.mem_cons_of_mem p hq)) hg
      rw [addressAfter] at hm
      split at hm
      · split at hm
        · obtain rfl := Option.some.inj hm
          exact hwhole.finish
        · exact absurd hm (by simp)
      · exact hnext m hm

/-- The walk for a prefix meets prefixes of the index that are in it. -/
theorem OfFamily.exists_of_walked (h : index.OfFamily f)
    (hq : q ∈ (index.moreSpecific p).map Prod.fst) :
    q.family = f ∧ ∃ x ∈ index.entries, x.1 = q ∧ ∀ n ∈ q.block, n ∈ p.block := by
  obtain ⟨x, hx, rfl⟩ := List.mem_map.mp hq
  obtain ⟨hx, hin⟩ := h.mem_moreSpecific.mp hx
  exact ⟨h x hx, x, hx, rfl, hin⟩

theorem OfFamily.last_le_of_walked (h : index.OfFamily f)
    (hq : q ∈ (index.moreSpecific p).map Prod.fst) : q.last ≤ p.last := by
  obtain ⟨-, -, -, -, hin⟩ := h.exists_of_walked hq
  exact (hin q.last q.last_mem_block).2

theorem OfFamily.pairwise_walked (h : index.OfFamily f) (p : Prefix) :
    ((index.moreSpecific p).map Prod.fst).Pairwise fun p q => p.addr ≤ q.addr :=
  List.pairwise_map.mpr (h.ascending.sublist (moreSpecific_sublist index p))

/-- **The gaps of a prefix** have the addresses of it that no prefix of the index within it has. -/
theorem OfFamily.holds_gaps (h : index.OfFamily f) :
    Block.Holds (index.gaps p) n ↔
      n ∈ p.block ∧ ∀ x ∈ index.entries, (∀ m ∈ x.1.block, m ∈ p.block) → n ∉ x.1.block := by
  rw [gaps, holds_gapsFrom p.last_lt (h.pairwise_walked p) fun q => h.last_le_of_walked,
    reaches_some, ← and_assoc]
  refine and_congr Iff.rfl ⟨fun hnone x hx hin hn => ?_, fun hnone q hq hn => ?_⟩
  · exact hnone x.1 (List.mem_map.mpr ⟨x, h.mem_moreSpecific.mpr ⟨hx, hin⟩, rfl⟩) hn
  · obtain ⟨-, x, hx, rfl, hin⟩ := h.exists_of_walked hq
    exact hnone x hx hin hn

/-- The gaps of a prefix are whole. -/
theorem OfFamily.whole_of_mem_gaps (h : index.OfFamily f) (hp : p.family = f) {g : Block}
    (hg : g ∈ index.gaps p) : f.Whole g := by
  subst hp
  refine whole_of_mem_gapsFrom p.last_lt p.whole.finish (fun m hm => ?_)
    (fun q hq => ⟨(h.exists_of_walked hq).1, h.last_le_of_walked hq⟩) hg
  obtain rfl := Option.some.inj hm
  exact p.whole.start

/-- The gaps of a prefix have the addresses of it that no announcement within it covers. -/
theorem IndexOf.holds_gaps (h : IndexOf index f entries) :
    Block.Holds (index.gaps p) n ↔
      n ∈ p.block ∧ ∀ e ∈ entries, (∀ m ∈ e.pfx.block, m ∈ p.block) → n ∉ e.pfx.block := by
  rw [h.ofFamily.holds_gaps]
  refine and_congr_right fun _ => ⟨fun hnone e he => ?_, fun hnone x hx => ?_⟩
  · obtain ⟨l, hl, -⟩ := h.mem_entries_iff.mpr ⟨he, rfl⟩
    exact hnone (e.pfx, l) hl
  · obtain ⟨e, he, hpfx⟩ := h.exists_of_mem hx
    exact hpfx ▸ hnone e he

/-! ### What is announced for the nearest ancestor -/

/-- Searching the numbers below a bound from the largest on finds the largest one that gives a
result. -/
theorem findSome?_range_reverse {α : Type} {g : Nat → Option α} {bound : Nat} {a : α} :
    (List.range bound).reverse.findSome? g = some a ↔
      ∃ k < bound, g k = some a ∧ ∀ j < bound, k < j → g j = none := by
  induction bound with
  | zero => simp
  | succ bound ih =>
    rw [List.range_succ, List.reverse_append, List.reverse_singleton, List.singleton_append,
      List.findSome?_cons]
    cases hg : g bound with
    | some b =>
      constructor
      · rintro hab
        obtain rfl := Option.some.inj hab
        exact ⟨bound, Nat.lt_succ_self _, hg, fun j hj hlt => by omega⟩
      · rintro ⟨k, hk, hgk, hnone⟩
        rcases Nat.lt_or_eq_of_le (Nat.le_of_lt_succ hk) with hlt | rfl
        · exact absurd (hnone bound (Nat.lt_succ_self _) hlt) (by simp [hg])
        · exact hg.symm.trans hgk
    | none =>
      refine ih.trans ⟨?_, ?_⟩
      · rintro ⟨k, hk, hgk, hnone⟩
        refine ⟨k, Nat.lt_succ_of_lt hk, hgk, fun j hj hlt => ?_⟩
        rcases Nat.lt_or_eq_of_le (Nat.le_of_lt_succ hj) with hj | rfl
        · exact hnone j hj hlt
        · exact hg
      · rintro ⟨k, hk, hgk, hnone⟩
        have hne : k ≠ bound := by
          rintro rfl
          exact absurd hgk (by simp [hg])
        exact ⟨k, by omega, hgk, fun j hj hlt => hnone j (Nat.lt_succ_of_lt hj) hlt⟩

/-- What is announced for a prefix around an address is looked up by the length of the prefix. -/
theorem IndexOf.mem_find?_containing (h : IndexOf index f entries) (he : e ∈ entries)
    (hn : n ∈ e.pfx.block) : e ∈ (index.find? (Prefix.containing f n e.pfx.len)).getD [] := by
  rw [h.mem_iff, ← h.family_eq e he]
  exact ⟨he, Prefix.eq_containing hn⟩

/-- What is looked up by a length is announced for a prefix of that length around the address. -/
theorem IndexOf.exists_of_find?_containing (h : IndexOf index f entries) (hn : n < Address.space)
    {len : Nat} (hlen : len ≤ f.bits) (hfind : index.find? (Prefix.containing f n len) ≠ none) :
    ∃ e ∈ entries, e.pfx.len = len ∧ n ∈ e.pfx.block := by
  obtain ⟨e, he, hpfx⟩ := h.announced _ hfind
  refine ⟨e, he, ?_, ?_⟩
  · rw [hpfx]
    exact Nat.min_eq_left hlen
  · rw [hpfx]
    exact Prefix.mem_containing hn

/-- **What is announced for the nearest ancestor** is what is announced for the longest of the
shorter prefixes around the given one. -/
theorem IndexOf.mem_lessSpecific (h : IndexOf index f entries) (hq : q.family = f) :
    e ∈ (index.lessSpecific q).getD [] ↔
      (e ∈ entries ∧ e.pfx.len < q.len ∧ q.addr ∈ e.pfx.block) ∧
        ∀ d ∈ entries, d.pfx.len < q.len → q.addr ∈ d.pfx.block → d.pfx.len ≤ e.pfx.len := by
  subst hq
  constructor
  · intro he
    cases hless : index.lessSpecific q with
    | none =>
      rw [hless] at he
      exact absurd he List.not_mem_nil
    | some l =>
      rw [hless, Option.getD_some] at he
      obtain ⟨len, hlen, hfind, hnone⟩ := findSome?_range_reverse.mp hless
      obtain ⟨hmem, hpfx⟩ := (h.mem_iff _ e).mp (by rw [hfind]; exact he)
      have helen : e.pfx.len = len := by
        rw [hpfx]
        exact Nat.min_eq_left (Nat.le_trans (Nat.le_of_lt hlen) q.len_le)
      refine ⟨⟨hmem, helen ▸ hlen, ?_⟩, fun d hd hdlen hdaddr => Nat.le_of_not_lt fun hlt => ?_⟩
      · rw [hpfx]
        exact Prefix.mem_containing q.addr_lt
      · -- a longer one would have been found before
        have hdl := h.mem_find?_containing hd hdaddr
        rw [hnone d.pfx.len hdlen (helen ▸ hlt)] at hdl
        exact absurd hdl List.not_mem_nil
  · rintro ⟨⟨he, hlen, haddr⟩, hlongest⟩
    have hel := h.mem_find?_containing he haddr
    cases hfind : index.find? (Prefix.containing q.family q.addr e.pfx.len) with
    | none =>
      rw [hfind] at hel
      exact absurd hel List.not_mem_nil
    | some l =>
      rw [hfind] at hel
      have hless : index.lessSpecific q = some l := by
        refine findSome?_range_reverse.mpr ⟨e.pfx.len, hlen, hfind, fun len hlt hgt => ?_⟩
        refine Classical.byContradiction fun hsome => ?_
        obtain ⟨d, hd, rfl, hdaddr⟩ := h.exists_of_find?_containing q.addr_lt
          (Nat.le_trans (Nat.le_of_lt hlt) q.len_le) hsome
        exact absurd (hlongest d hd hlt hdaddr) (Nat.not_le.mpr hgt)
      rw [hless]
      exact hel

/-! ### What is announced around a prefix -/

/-- **What is announced around the gaps of a prefix** is what is announced for a shorter prefix
that is the nearest one for one of its addresses. -/
theorem IndexOf.mem_aroundGaps (h : IndexOf index f entries) (hp : p.family = f) :
    e ∈ index.aroundGaps p ↔
      e ∈ entries ∧ e.pfx.len < p.len ∧ ∃ n ∈ p.block, e.IsNearest entries n := by
  simp only [aroundGaps, List.mem_flatMap]
  constructor
  · rintro ⟨g, hg, q, hq, he⟩
    have hwhole := h.ofFamily.whole_of_mem_gaps hp hg
    rw [hp] at hq
    have hqf := Prefix.family_of_mem_decompose hq
    have hgap : ∀ n ∈ q.block, Block.Holds (index.gaps p) n := fun n hn =>
      ⟨g, hg, Prefix.bounds_of_mem_decompose hwhole hq hn⟩
    obtain ⟨⟨he, hlen, haddr⟩, hlongest⟩ := (h.mem_lessSpecific hqf).mp he
    obtain ⟨hn, hnone⟩ := h.holds_gaps.mp (hgap q.addr q.addr_mem_block)
    refine ⟨he, Nat.lt_of_not_le fun hle => ?_, q.addr, hn, haddr, fun d hd _ hdn => ?_⟩
    · -- no longer prefix than the given one covers the gap
      exact hnone e he (fun m hm => Prefix.nested hle haddr hn hm) haddr
    · refine hlongest d hd (Nat.lt_of_not_le fun hle => ?_) hdn
      -- a prefix as long as the piece of the gap would lie in the gap
      have hin : ∀ m ∈ d.pfx.block, m ∈ p.block := fun m hm =>
        (h.holds_gaps.mp (hgap m (Prefix.nested hle hdn q.addr_mem_block hm))).1
      exact hnone d hd hin hdn
  · rintro ⟨he, hlen, n, hn, hne, hlongest⟩
    have hlongest : ∀ d ∈ entries, n ∈ d.pfx.block → d.pfx.len ≤ e.pfx.len := fun d hd =>
      hlongest d hd ((h.family_eq d hd).trans (h.family_eq e he).symm)
    have hgap : Block.Holds (index.gaps p) n := by
      refine h.holds_gaps.mpr ⟨hn, fun d hd hin hdn => ?_⟩
      exact absurd (Nat.le_trans (Prefix.subset_iff.mp hin).1 (hlongest d hd hdn))
        (Nat.not_le.mpr hlen)
    obtain ⟨g, hg, hgn⟩ := hgap
    have hwhole := h.ofFamily.whole_of_mem_gaps hp hg
    obtain ⟨q, hq, hqn⟩ := Prefix.exists_mem_decompose hwhole hgn
    have hqf := Prefix.family_of_mem_decompose hq
    have hqp : ∀ m ∈ q.block, m ∈ p.block := fun m hm =>
      (h.holds_gaps.mp ⟨g, hg, Prefix.bounds_of_mem_decompose hwhole hq hm⟩).1
    have hqlen : e.pfx.len < q.len := Nat.lt_of_lt_of_le hlen (Prefix.subset_iff.mp hqp).1
    refine ⟨g, hg, q, hp ▸ hq, (h.mem_lessSpecific hqf).mpr ⟨⟨he, hqlen, ?_⟩, ?_⟩⟩
    · exact Prefix.nested (Nat.le_of_lt hqlen) hqn hne q.addr_mem_block
    · intro d hd hdlen hdaddr
      exact hlongest d hd (Prefix.nested (Nat.le_of_lt hdlen) q.addr_mem_block hdaddr hqn)

end FamilyIndex

end RpkiAuthority
