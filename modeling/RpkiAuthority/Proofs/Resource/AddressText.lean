import RpkiAuthority.Proofs.Resource.Canonical
import RpkiAuthority.Proofs.Text.Numerals
import RpkiAuthority.Proofs.Text.Pieces

/-!
# Addresses that are written are read back

An IPv4 address is cut at its dots, and each of the four numbers is read back
(`Address.readDotted_dotted`). An IPv6 address has three written forms.

* **Eight groups**, cut at their colons.
* **With a gap** in place of the first of the longest runs of zero groups. The reader cuts at the
  first two colons in a row. Groups that are written out have no such pair between them or next to
  it (`Address.cutAtGap_append`), so it is the gap that is found, and as many zero groups are filled
  in as have been left out.
* **With an IPv4 address** at the end, which the reader takes for one because it is too long for a
  group.

The three forms read back alike (`Address.readColoned_coloned`). So a number that is written as an
address of a family is read as the address that it is part of (`Address.read_text`). Only a mapped
address is written with an IPv4 address at its end, but any address may be
(`Address.readColoned_dottedForm`), so an IPv6 address has several spellings (`Address.Spelling`).
-/

namespace RpkiAuthority

open Text

namespace Address

variable {n : Nat} {c : Char} {l : List Char} {gs : List Nat} {pieces : List (List Char)}

/-! ### IPv4 -/

theorem toList_dotted (n : Nat) : (dotted n).toList = ['.'].intercalate
    ([n >>> 24 % 256, n >>> 16 % 256, n >>> 8 % 256, n % 256].map fun k => k.repr.toList) := by
  rw [dotted, toList_join, List.map_map]
  rfl

/-- A number below 256 is written without leading zeros. -/
theorem readOctet_repr {k : Nat} (h : k < 256) : readOctet k.repr.toList = some k := by
  have hread : readNumeral max8 k.repr.toList = some k := readNumeral_repr (Nat.le_of_lt_succ h)
  rw [readOctet, if_neg, hread]
  rintro ⟨hzero, hmore⟩
  rw [Nat.toList_repr] at hzero hmore
  rcases Nat.eq_zero_or_pos k with rfl | hpos
  · exact hmore (Nat.toDigits_zero 10)
  · exact head?_toDigits_ne (by decide) k hpos hzero

/-- **IPv4 addresses are read back.** -/
theorem readDotted_dotted (h : n < 2 ^ 32) : readDotted (dotted n).toList = some n := by
  have hpieces : piecesAt '.' (dotted n).toList =
      [n >>> 24 % 256, n >>> 16 % 256, n >>> 8 % 256, n % 256].map fun k => k.repr.toList := by
    rw [toList_dotted, piecesAt_intercalate _ (by simp)]
    rw [List.forall_mem_map]
    exact fun k _ hdot => absurd (isAlphanum_of_mem_repr hdot) (by decide)
  have hoctet : ∀ m, readOctet (m % 256).repr.toList = some (m % 256) :=
    fun m => readOctet_repr (Nat.mod_lt m (by decide))
  rw [readDotted, hpieces]
  simp only [List.map_cons, List.map_nil, hoctet, Option.bind_eq_bind, Option.bind_some,
    Option.pure_def, Nat.shiftRight_eq_div_pow, Option.some.injEq]
  omega

/-- IPv4 addresses are written with digits and dots. -/
theorem isAlphanum_of_mem_dotted (h : c ∈ (dotted n).toList) : c.isAlphanum = true ∨ c = '.' := by
  rw [toList_dotted] at h
  rcases mem_intercalate h with h | ⟨t, ht, h⟩
  · exact .inr (List.mem_singleton.mp h)
  · obtain ⟨k, -, rfl⟩ := List.mem_map.mp ht
    exact .inl (isAlphanum_of_mem_repr h)

theorem dot_mem_dotted (n : Nat) : '.' ∈ (dotted n).toList := by
  rw [toList_dotted]
  simp

/-- An IPv4 address is longer than a group. -/
theorem length_dotted (n : Nat) : 4 < (dotted n).toList.length := by
  have hpos : ∀ k : Nat, 0 < k.repr.toList.length := by
    intro k
    rw [Nat.toList_repr]
    exact Nat.length_toDigits_pos
  have h1 := hpos (n >>> 24 % 256)
  have h2 := hpos (n >>> 16 % 256)
  have h3 := hpos (n >>> 8 % 256)
  have h4 := hpos (n % 256)
  rw [toList_dotted]
  simp only [List.map_cons, List.map_nil, List.intercalate_cons_cons, List.intercalate_singleton,
    List.length_append, List.length_singleton]
  omega

/-! ### Groups -/

/-- The first group stands above all others. -/
theorem ofGroups_cons (g : Nat) (gs : List Nat) :
    ofGroups (g :: gs) = g * 65536 ^ gs.length + ofGroups gs := by
  have hfold : ∀ (gs : List Nat) (m : Nat),
      gs.foldl (fun n g => n * 65536 + g) m = m * 65536 ^ gs.length + ofGroups gs := by
    intro gs
    induction gs with
    | nil => simp [ofGroups]
    | cons g gs ih =>
      intro m
      rw [ofGroups, List.foldl_cons, List.foldl_cons, ih, ih, List.length_cons, Nat.pow_succ',
        Nat.zero_mul, Nat.zero_add, Nat.add_mul, Nat.mul_assoc, Nat.add_assoc]
  rw [ofGroups, List.foldl_cons, hfold, Nat.zero_mul, Nat.zero_add]

/-- The lowest groups of a number make up its lowest bits. -/
theorem ofGroups_range (n k : Nat) :
    ofGroups ((List.range k).reverse.map fun i => n >>> (16 * i) % 65536) = n % 65536 ^ k := by
  induction k with
  | zero => simp [ofGroups, Nat.mod_one]
  | succ k ih =>
    have hpow : 2 ^ (16 * k) = 65536 ^ k := Nat.pow_mul 2 16 k
    rw [List.range_succ, List.reverse_append, List.reverse_singleton, List.singleton_append,
      List.map_cons, ofGroups_cons, ih, List.length_map, List.length_reverse, List.length_range,
      Nat.shiftRight_eq_div_pow, hpow, Nat.mod_pow_succ, Nat.mul_comm, Nat.add_comm]

/-- **The groups make up the address.** -/
theorem ofGroups_groups (h : n < 2 ^ 128) : ofGroups (groups n) = n := by
  have hgroups : groups n = (List.range 8).reverse.map fun i => n >>> (16 * i) % 0x10000 := rfl
  rw [hgroups, ofGroups_range]
  exact Nat.mod_eq_of_lt h

theorem groups_lt : ∀ g ∈ groups n, g < 65536 := by
  intro g hg
  obtain ⟨i, -, rfl⟩ := List.mem_map.mp hg
  exact Nat.mod_lt _ (by decide)

theorem length_groups (n : Nat) : (groups n).length = 8 := rfl

/-- A group is read back. -/
theorem readGroup_hexDigits {g : Nat} (h : g < 65536) : readGroup (hexDigits g) = some g := by
  have hlen : (hexDigits g).length ≤ 4 :=
    (Nat.length_toDigits_le_iff (by decide) (by decide)).mpr h
  have hne : (hexDigits g).isEmpty = false := by
    rw [List.isEmpty_eq_false_iff]
    exact Nat.toDigits_ne_nil
  rw [readGroup, if_neg (by simp [hne]; omega)]
  exact foldlM_hexDigits g

theorem toList_colonized (gs : List Nat) :
    (colonized gs).toList = [':'].intercalate (gs.map hexDigits) := by
  rw [colonized, toList_join, List.map_map]
  congr 1
  exact List.map_congr_left fun g _ => String.toList_ofList

/-- Groups are written without colons in them, and never empty. -/
theorem hexDigits_spec (g : Nat) : ':' ∉ hexDigits g ∧ hexDigits g ≠ [] := by
  refine ⟨fun h => ?_, Nat.toDigits_ne_nil⟩
  exact absurd (isAlphanum_of_mem_toDigits (by decide) (by decide) g _ h) (by decide)

/-! ### The gap -/

/-- Two colons in a row are the gap, and nothing else is. -/
theorem cutAtGap_cons (h : c ≠ ':' ∨ l.head? ≠ some ':') :
    cutAtGap (c :: l) = (cutAtGap l).map fun (before, after) => (c :: before, after) := by
  rw [cutAtGap]
  rintro rest rfl rfl
  simp at h

/-- The search for the gap passes over a text without colons. -/
theorem cutAtGap_append_of_not_mem {x : List Char} (h : ':' ∉ x) (l : List Char) :
    cutAtGap (x ++ l) = (cutAtGap l).map fun (before, after) => (x ++ before, after) := by
  induction x with
  | nil => simp
  | cons c x ih =>
    rw [List.mem_cons, not_or] at h
    rw [List.cons_append, cutAtGap_cons (.inl (Ne.symm h.1)), ih h.2, Option.map_map]
    rfl

/-- **Groups that are written out have no gap** between them, and none next to them. -/
theorem cutAtGap_append (h : ∀ t ∈ pieces, ':' ∉ t ∧ t ≠ []) (l : List Char) :
    cutAtGap ([':'].intercalate pieces ++ l) =
      (cutAtGap l).map fun (before, after) => ([':'].intercalate pieces ++ before, after) := by
  induction pieces with
  | nil => simp
  | cons t pieces ih =>
    obtain ⟨⟨ht, -⟩, hmore⟩ := List.forall_mem_cons.mp h
    cases pieces with
    | nil => simpa using cutAtGap_append_of_not_mem ht l
    | cons u pieces =>
      -- a group stands behind the colon, so that no colon does
      have hnext : ([':'].intercalate (u :: pieces) ++ l).head? ≠ some ':' := by
        obtain ⟨hcolon, hne⟩ := hmore u List.mem_cons_self
        obtain ⟨d, v, rfl⟩ := List.exists_cons_of_ne_nil hne
        have hd : d ≠ ':' := fun hd => hcolon (hd ▸ List.mem_cons_self)
        cases pieces <;> simpa using hd
      rw [List.intercalate_cons_cons, List.append_assoc, List.append_assoc,
        cutAtGap_append_of_not_mem ht, List.singleton_append, cutAtGap_cons (.inr hnext), ih hmore,
        Option.map_map, Option.map_map]
      congr 1
      funext ⟨before, after⟩
      simp

/-! ### Zero groups -/

theorem leadingZeros_spec (gs : List Nat) :
    gs = List.replicate (leadingZeros gs) 0 ++ gs.drop (leadingZeros gs) := by
  induction gs with
  | nil => rfl
  | cons g gs ih =>
    rw [leadingZeros, List.takeWhile_cons]
    split
    · next hg =>
      obtain rfl := eq_of_beq hg
      exact congrArg (0 :: ·) ih
    · rfl

/-- **A run of zero groups** stands where the search says, with the length it says. -/
theorem longestZeros_spec (gs : List Nat) :
    gs = gs.take (longestZeros gs).1 ++ List.replicate (longestZeros gs).2 0 ++
      gs.drop ((longestZeros gs).1 + (longestZeros gs).2) := by
  induction gs with
  | nil => rfl
  | cons g gs ih =>
    rw [longestZeros]
    generalize longestZeros gs = run at ih
    obtain ⟨start, length⟩ := run
    dsimp only at ih ⊢
    split
    · simpa using leadingZeros_spec (g :: gs)
    · rw [Nat.add_right_comm start 1 length]
      exact congrArg (g :: ·) ih

/-! ### IPv6 -/

theorem readGroups_map (h : ∀ g ∈ gs, g < 65536) : readGroups (gs.map hexDigits) = some gs := by
  induction gs with
  | nil => rfl
  | cons g gs ih =>
    obtain ⟨hg, hgs⟩ := List.forall_mem_cons.mp h
    have hread := readGroup_hexDigits hg
    cases gs with
    | nil => rw [List.map_singleton, readGroups, hread]
    | cons k gs =>
      rw [List.map_cons, readGroups, hread, ih hgs]
      · rfl
      · exact List.cons_ne_nil _ _

theorem mapM_readGroup (h : ∀ g ∈ gs, g < 65536) :
    (gs.map hexDigits).mapM readGroup = some gs := by
  induction gs with
  | nil => rfl
  | cons g gs ih =>
    obtain ⟨hg, hgs⟩ := List.forall_mem_cons.mp h
    rw [List.map_cons, List.mapM_cons, readGroup_hexDigits hg, ih hgs]
    rfl

theorem piecesAt_colonized (hne : gs ≠ []) :
    piecesAt ':' (colonized gs).toList = gs.map hexDigits := by
  rw [toList_colonized, piecesAt_intercalate _ (by simpa using hne)]
  exact List.forall_mem_map.mpr fun g _ => (hexDigits_spec g).1

/-- Only no groups at all are written as nothing. -/
theorem isEmpty_colonized (gs : List Nat) : (colonized gs).toList.isEmpty = gs.isEmpty := by
  rw [toList_colonized]
  cases gs with
  | nil => rfl
  | cons g gs =>
    obtain ⟨d, more, hd⟩ := List.exists_cons_of_ne_nil (hexDigits_spec g).2
    rw [List.map_cons, hd]
    cases gs <;> simp

theorem cutAtGap_colonized (gs : List Nat) (l : List Char) :
    cutAtGap ((colonized gs).toList ++ l) =
      (cutAtGap l).map fun (before, after) => ((colonized gs).toList ++ before, after) := by
  rw [toList_colonized]
  exact cutAtGap_append (List.forall_mem_map.mpr fun g _ => hexDigits_spec g) l

/-- Eight groups that are written out are read back. -/
theorem readColoned_colonized (h : ∀ g ∈ gs, g < 65536) (hlen : gs.length = 8) :
    readColoned (colonized gs).toList = some (ofGroups gs) := by
  have hne : gs ≠ [] := List.ne_nil_of_length_eq_add_one hlen
  have hcut : cutAtGap (colonized gs).toList = none := by
    have hnone := cutAtGap_colonized gs []
    rwa [List.append_nil] at hnone
  simp only [readColoned, hcut, piecesAt_colonized hne, readGroups_map h, Option.bind_eq_bind,
    Option.bind_some, hlen, if_true]

/-- **The gap is filled** with as many zero groups as were left out, whatever is read behind it. -/
theorem readColoned_gap {front back : List Nat} {after : List Char} {zeros : Nat}
    (hfront : ∀ g ∈ front, g < 65536) (hafter : readSide after = some back) (hpos : 0 < zeros)
    (hlen : front.length + zeros + back.length = 8) :
    readColoned ((colonized front).toList ++ ':' :: ':' :: after) =
      some (ofGroups (front ++ List.replicate zeros 0 ++ back)) := by
  have hcut : cutAtGap ((colonized front).toList ++ ':' :: ':' :: after) =
      some ((colonized front).toList, after) := by
    rw [cutAtGap_colonized]
    exact congrArg (fun l => some (l, after)) (List.append_nil _)
  have hzeros : 8 - front.length - back.length = zeros := by omega
  have hshort : front.length + back.length ≤ 7 := by omega
  rw [readColoned, hcut]
  dsimp only
  rw [isEmpty_colonized]
  cases front with
  | nil =>
    simp only [List.isEmpty_nil, if_true, hafter, Option.bind_eq_bind, Option.bind_some]
    rw [if_pos hshort, hzeros]
  | cons g front =>
    simp only [List.isEmpty_cons, Bool.false_eq_true, if_false,
      piecesAt_colonized (List.cons_ne_nil g front), mapM_readGroup hfront, hafter,
      Option.bind_eq_bind, Option.bind_some]
    rw [if_pos hshort, hzeros]

theorem readSide_colonized (h : ∀ g ∈ gs, g < 65536) :
    readSide (colonized gs).toList = some gs := by
  rw [readSide, isEmpty_colonized]
  cases gs with
  | nil => rfl
  | cons g gs => exact piecesAt_colonized (List.cons_ne_nil g gs) ▸ readGroups_map h

/-! ### An IPv4 address at the end -/

/-- The two lowest groups, which an IPv4 address stands for. -/
def lowGroups (n : Nat) : List Nat := [n % 2 ^ 32 / 65536, n % 2 ^ 32 % 65536]

/-- Groups with the lowest 32 bits of an address behind them, written as an IPv4 address. -/
def colonizedDotted (gs : List Nat) (n : Nat) : String :=
  Text.join ":" (gs.map (fun g => String.ofList (hexDigits g)) ++ [dotted (n % 2 ^ 32)])

/-- **The dotted forms of an IPv6 address** have its lowest 32 bits written as an IPv4 address. The
groups before it are all there, or a gap stands in place of some zero groups. -/
inductive DottedForm (n : Nat) : String → Prop where
  | whole : DottedForm n (colonizedDotted ((groups n).take 6) n)
  | gap {front back : List Nat} {zeros : Nat} (hpos : 0 < zeros)
    (hgroups : (groups n).take 6 = front ++ List.replicate zeros 0 ++ back) :
    DottedForm n (colonized front ++ "::" ++ colonizedDotted back n)

theorem groups_eq_append (n : Nat) : groups n = (groups n).take 6 ++ lowGroups n := by
  have hhigh : n >>> 16 % 65536 = n % 2 ^ 32 / 65536 := by
    rw [Nat.shiftRight_eq_div_pow]
    omega
  have hlow : n >>> 0 % 65536 = n % 2 ^ 32 % 65536 := by
    rw [Nat.shiftRight_zero]
    omega
  have hlast : (groups n).drop 6 = lowGroups n := by
    rw [lowGroups, ← hhigh, ← hlow]
    rfl
  rw [← hlast, List.take_append_drop]

theorem toList_colonizedDotted (gs : List Nat) (n : Nat) : (colonizedDotted gs n).toList =
    [':'].intercalate (gs.map hexDigits ++ [(dotted (n % 2 ^ 32)).toList]) := by
  rw [colonizedDotted, toList_join, List.map_append, List.map_map]
  exact congrArg (fun l => [':'].intercalate (l ++ _))
    (List.map_congr_left fun g _ => String.toList_ofList)

/-- Neither groups nor an IPv4 address have colons in them, and none of them is empty. -/
theorem colonizedDotted_spec (gs : List Nat) (n : Nat) :
    ∀ t ∈ gs.map hexDigits ++ [(dotted (n % 2 ^ 32)).toList], ':' ∉ t ∧ t ≠ [] := by
  refine List.forall_mem_append.mpr ⟨List.forall_mem_map.mpr fun g _ => hexDigits_spec g,
    List.forall_mem_singleton.mpr ⟨fun h => ?_, fun h => ?_⟩⟩
  · exact absurd (isAlphanum_of_mem_dotted h) (by decide)
  · have hlen := length_dotted (n % 2 ^ 32)
    rw [h] at hlen
    exact absurd hlen (by decide)

theorem piecesAt_colonizedDotted (gs : List Nat) (n : Nat) :
    piecesAt ':' (colonizedDotted gs n).toList =
      gs.map hexDigits ++ [(dotted (n % 2 ^ 32)).toList] := by
  rw [toList_colonizedDotted, piecesAt_intercalate (fun t ht => (colonizedDotted_spec gs n t ht).1)]
  exact List.append_ne_nil_of_right_ne_nil _ (List.cons_ne_nil _ _)

/-- The IPv4 address is read as two groups. -/
theorem readGroups_dotted (h : ∀ g ∈ gs, g < 65536) (n : Nat) :
    readGroups (gs.map hexDigits ++ [(dotted (n % 2 ^ 32)).toList]) = some (gs ++ lowGroups n) := by
  induction gs with
  | nil =>
    have hgroup : readGroup (dotted (n % 2 ^ 32)).toList = none := by
      rw [readGroup, if_pos (.inr (length_dotted _))]
    have hread := readDotted_dotted (Nat.mod_lt n (Nat.two_pow_pos 32))
    rw [List.map_nil, List.nil_append, readGroups, hgroup, hread]
    rfl
  | cons g gs ih =>
    obtain ⟨hg, hgs⟩ := List.forall_mem_cons.mp h
    rw [List.map_cons, List.cons_append, readGroups, readGroup_hexDigits hg, ih hgs]
    · rfl
    · exact List.append_ne_nil_of_right_ne_nil _ (List.cons_ne_nil _ _)

theorem readSide_colonizedDotted (h : ∀ g ∈ gs, g < 65536) (n : Nat) :
    readSide (colonizedDotted gs n).toList = some (gs ++ lowGroups n) := by
  have hne : (colonizedDotted gs n).toList ≠ [] := by
    intro hnil
    have hpieces := piecesAt_colonizedDotted gs n
    rw [hnil] at hpieces
    have hempty : [] ∈ gs.map hexDigits ++ [(dotted (n % 2 ^ 32)).toList] :=
      hpieces ▸ List.mem_singleton_self []
    exact (colonizedDotted_spec gs n [] hempty).2 rfl
  rw [readSide, if_neg (by simpa using hne), piecesAt_colonizedDotted, readGroups_dotted h]

/-- **Dotted forms are read back**, with a gap and without one. -/
theorem readColoned_dottedForm {t : String} (hn : n < 2 ^ 128) (h : DottedForm n t) :
    readColoned t.toList = some n := by
  have hlt : ∀ g ∈ (groups n).take 6, g < 65536 := fun g hg => groups_lt g (List.mem_of_mem_take hg)
  have hofGroups : ofGroups ((groups n).take 6 ++ lowGroups n) = n := by
    rw [← groups_eq_append, ofGroups_groups hn]
  cases h with
  | whole =>
    have hcut : cutAtGap (colonizedDotted ((groups n).take 6) n).toList = none := by
      have hnone := cutAtGap_append (colonizedDotted_spec ((groups n).take 6) n) []
      rwa [List.append_nil, ← toList_colonizedDotted] at hnone
    have hlen : ((groups n).take 6 ++ lowGroups n).length = 8 := rfl
    simp only [readColoned, hcut, piecesAt_colonizedDotted, readGroups_dotted hlt,
      Option.bind_eq_bind, Option.bind_some, hlen, if_true, hofGroups]
  | @gap front back zeros hpos hgroups =>
    rw [hgroups] at hlt hofGroups
    have hlen := congrArg List.length hgroups
    rw [List.length_append, List.length_append, List.length_replicate, List.length_take,
      length_groups] at hlen
    have htext : (colonized front ++ "::" ++ colonizedDotted back n).toList =
        (colonized front).toList ++ ':' :: ':' :: (colonizedDotted back n).toList := by
      simp
    have hafter := readSide_colonizedDotted
      (fun g hg => hlt g (List.mem_append_right _ hg)) n
    have hlow : (back ++ lowGroups n).length = back.length + 2 := List.length_append
    rw [htext, readColoned_gap (fun g hg => hlt g (by simp [hg])) hafter hpos (by omega),
      ← List.append_assoc, hofGroups]

/-- An address with an IPv4 address in it is written in a dotted form. -/
theorem dottedForm_mapped (h : n >>> 32 = 0xffff) :
    DottedForm n ("::ffff:" ++ dotted (n % (1 <<< 32))) := by
  rw [Nat.shiftRight_eq_div_pow] at h
  have hgroups : (groups n).take 6 = [] ++ List.replicate 5 0 ++ [0xffff] := by
    simp only [groups, List.map_cons, List.map_nil, List.take_succ_cons, List.take_zero,
      Nat.shiftRight_eq_div_pow, List.replicate, List.nil_append, List.cons_append,
      List.cons.injEq, and_true]
    omega
  have htext : "::ffff:" ++ dotted (n % (1 <<< 32)) =
      colonized [] ++ "::" ++ colonizedDotted [0xffff] n := by
    have hffff : String.ofList (hexDigits 0xffff) = "ffff" := by decide
    rw [colonizedDotted, List.map_singleton, hffff, List.singleton_append, Text.join, Text.join,
      ← String.append_assoc, ← String.append_assoc]
    · rfl
    · exact List.cons_ne_nil _ _
  exact htext ▸ .gap (by decide) hgroups

/-- **IPv6 addresses are read back**, in whichever form they are written. -/
theorem readColoned_coloned (h : n < 2 ^ 128) : readColoned (coloned n).toList = some n := by
  have hgroups : ∀ g ∈ groups n, g < 65536 := groups_lt
  have hrun := longestZeros_spec (groups n)
  rw [coloned]
  generalize longestZeros (groups n) = run at hrun
  obtain ⟨start, length⟩ := run
  dsimp only at hrun ⊢
  split
  · next hmapped => exact readColoned_dottedForm h (dottedForm_mapped hmapped)
  · split
    · rw [readColoned_colonized hgroups (length_groups n), ofGroups_groups h]
    · next hlong =>
      have hlen := congrArg List.length hrun
      rw [List.length_append, List.length_append, List.length_replicate, length_groups] at hlen
      have hfront : ∀ g ∈ (groups n).take start, g < 65536 :=
        fun g hg => hgroups g (List.mem_of_mem_take hg)
      have hback : ∀ g ∈ (groups n).drop (start + length), g < 65536 :=
        fun g hg => hgroups g (List.mem_of_mem_drop hg)
      have htext : (colonized ((groups n).take start) ++ "::" ++
          colonized ((groups n).drop (start + length))).toList =
            (colonized ((groups n).take start)).toList ++
              ':' :: ':' :: (colonized ((groups n).drop (start + length))).toList := by
        simp
      rw [htext, readColoned_gap hfront (readSide_colonized hback)
        (Nat.lt_of_lt_of_le Nat.zero_lt_two (Nat.le_of_not_lt hlong)) hlen.symm, ← hrun,
        ofGroups_groups h]

/-! ### Both families -/

/-- **The characters of addresses**: letters, digits, dots and colons. -/
def IsSign (c : Char) : Prop := c.isAlphanum = true ∨ c = '.' ∨ c = ':'

instance (c : Char) : Decidable (IsSign c) :=
  inferInstanceAs (Decidable (c.isAlphanum = true ∨ c = '.' ∨ c = ':'))

/-- The characters of addresses are not those that items are cut at. -/
theorem IsSign.spec (h : IsSign c) : isBlank c = false ∧ c ≠ ',' ∧ c ≠ '/' ∧ c ≠ '-' := by
  rcases h with h | rfl | rfl
  · refine ⟨isBlank_of_isAlphanum h, ?_, ?_, ?_⟩
    all_goals
      rintro rfl
      exact absurd h (by decide)
  · decide
  · decide

theorem isSign_of_mem_colonized (h : c ∈ (colonized gs).toList) : IsSign c := by
  rw [toList_colonized] at h
  rcases mem_intercalate h with h | ⟨t, ht, h⟩
  · exact .inr (.inr (List.mem_singleton.mp h))
  · obtain ⟨g, -, rfl⟩ := List.mem_map.mp ht
    exact .inl (isAlphanum_of_mem_toDigits (by decide) (by decide) g c h)

theorem isSign_of_mem_dotted (h : c ∈ (dotted n).toList) : IsSign c :=
  (isAlphanum_of_mem_dotted h).imp_right .inl

theorem isSign_of_mem_colonizedDotted (h : c ∈ (colonizedDotted gs n).toList) : IsSign c := by
  rw [toList_colonizedDotted] at h
  rcases mem_intercalate h with h | ⟨t, ht, h⟩
  · exact .inr (.inr (List.mem_singleton.mp h))
  · rcases List.mem_append.mp ht with ht | ht
    · obtain ⟨g, -, rfl⟩ := List.mem_map.mp ht
      exact .inl (isAlphanum_of_mem_toDigits (by decide) (by decide) g c h)
    · obtain rfl := List.mem_singleton.mp ht
      exact isSign_of_mem_dotted h

/-- The characters on both sides of a gap, and its own. -/
theorem isSign_of_mem_gap {front back : String} (hfront : ∀ c ∈ front.toList, IsSign c)
    (hback : ∀ c ∈ back.toList, IsSign c) (h : c ∈ (front ++ "::" ++ back).toList) : IsSign c := by
  have hgap : ∀ c ∈ "::".toList, IsSign c := by simp [IsSign]
  rw [String.toList_append, String.toList_append, List.mem_append, List.mem_append] at h
  exact h.elim (fun h => h.elim (hfront c) (hgap c)) (hback c)

theorem colon_mem_gap (front back : String) : ':' ∈ (front ++ "::" ++ back).toList := by
  rw [String.toList_append, String.toList_append]
  exact List.mem_append_left _ (List.mem_append_right _ (by decide))

theorem isSign_of_mem_dottedForm {t : String} (h : DottedForm n t) (hc : c ∈ t.toList) :
    IsSign c := by
  cases h with
  | whole => exact isSign_of_mem_colonizedDotted hc
  | gap =>
    exact isSign_of_mem_gap (fun _ => isSign_of_mem_colonized)
      (fun _ => isSign_of_mem_colonizedDotted) hc

theorem colon_mem_dottedForm {t : String} (h : DottedForm n t) : ':' ∈ t.toList := by
  cases h with
  | whole =>
    rw [toList_colonizedDotted, groups]
    simp
  | gap => exact colon_mem_gap _ _

theorem isSign_of_mem_coloned (h : c ∈ (coloned n).toList) : IsSign c := by
  rw [coloned] at h
  dsimp only at h
  split at h
  · next hmapped => exact isSign_of_mem_dottedForm (dottedForm_mapped hmapped) h
  · split at h
    · exact isSign_of_mem_colonized h
    · exact isSign_of_mem_gap (fun _ => isSign_of_mem_colonized)
        (fun _ => isSign_of_mem_colonized) h

/-- IPv6 addresses are written with colons. -/
theorem colon_mem_coloned (n : Nat) : ':' ∈ (coloned n).toList := by
  rw [coloned]
  dsimp only
  split
  · next hmapped => exact colon_mem_dottedForm (dottedForm_mapped hmapped)
  · split
    · rw [toList_colonized, groups]
      simp
    · exact colon_mem_gap _ _

theorem isSign_of_mem_text {f : Family} (h : c ∈ (text f n).toList) : IsSign c := by
  cases f with
  | ipv4 =>
    rw [text] at h
    exact isSign_of_mem_dotted h
  | ipv6 =>
    rw [text] at h
    exact isSign_of_mem_coloned h

/-- **A number written as an address** is read as the address that it is part of. -/
theorem read_text {f : Family} (h : n < space) :
    read f (text f n).toList = some (f.addressOf n) := by
  rw [space_eq] at h
  cases f with
  | ipv4 =>
    have hlt : n >>> 96 < 2 ^ 32 := by
      rw [Nat.shiftRight_eq_div_pow]
      omega
    rw [read, text, readDotted_dotted hlt, Option.map_some, Nat.shiftRight_eq_div_pow,
      Nat.shiftLeft_eq]
    rfl
  | ipv6 =>
    have hsize : blockSize Family.ipv6.bits = 1 := rfl
    rw [read, text, readColoned_coloned h, Family.addressOf, hsize, Nat.div_one, Nat.mul_one]

/-- **The spellings of an address**: the written form, and the dotted forms of an IPv6 address. -/
inductive Spelling (n : Nat) : Family → String → Prop where
  | text (f : Family) : Spelling n f (text f n)
  | dotted {t : String} (h : DottedForm n t) : Spelling n .ipv6 t

namespace Spelling

variable {f : Family} {t : String}

/-- An address of a family is read back from each of its spellings. -/
theorem read (h : Spelling n f t) (hn : n < space) (haddr : f.addressOf n = n) :
    Address.read f t.toList = some n := by
  cases h with
  | text => rw [read_text hn, haddr]
  | dotted h => exact readColoned_dottedForm hn h

theorem isSign (h : Spelling n f t) (hc : c ∈ t.toList) : IsSign c := by
  cases h with
  | text => exact isSign_of_mem_text hc
  | dotted h => exact isSign_of_mem_dottedForm h hc

/-- **The family of an address** is told from each of its spellings. -/
theorem colon_mem_iff (h : Spelling n f t) : ':' ∈ t.toList ↔ f = .ipv6 := by
  cases h with
  | dotted h => exact iff_of_true (colon_mem_dottedForm h) rfl
  | text f =>
    cases f with
    | ipv4 => exact iff_of_false (fun h => absurd (isAlphanum_of_mem_dotted h) (by decide)) nofun
    | ipv6 => exact iff_of_true (colon_mem_coloned _) rfl

end Spelling

end Address

end RpkiAuthority
