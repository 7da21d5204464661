import RpkiAuthority.Proofs.Resource.RoundTrip

/-!
# The notation of prefixes

A prefix is read from an address, a slash and a length. The reader knows neither where the address
ends nor of which family it is: it cuts at the first slash, and takes the address for an IPv6 one if
there is a colon anywhere. Both are safe, because of the characters that addresses are made of. No
address that is read has a slash (`Address.isSign_of_read`), and those with a colon are just the
IPv6 addresses (`Address.colon_mem_iff_of_read`). So the texts that are read are exactly those of
the notation (`Prefix.readExact_eq_some_iff`, `Prefix.parse_eq_ok_iff`).

Further bits of the address are found out by comparison: the prefix that has the bits beyond its
length cleared starts at the address only if none of them was set
(`Address.mod_blockSize_eq_zero_iff_of_read`). The address may as well be read on its own, before
anything is known about the family (`Prefix.readCompared_eq`).
-/

namespace RpkiAuthority

open Text Address

variable {l : List Char} {n : Nat} {c : Char} {f : Family}

/-! ### The characters of numbers -/

namespace Text

theorem isDigit_of_readNumeral {max : Nat} (h : readNumeral max l = some n) (hc : c ∈ l) :
    c.isDigit = true := by
  rw [readNumeral] at h
  split at h
  · next hnumeral =>
    rw [isNumeral, Bool.and_eq_true, List.all_eq_true] at hnumeral
    exact hnumeral.2 c hc
  · exact absurd h (by simp)

/-- A number is written with digits, and perhaps a sign. -/
theorem isDigit_of_readNat {max : Nat} (h : readNat max l = some n) (hc : c ∈ l) :
    c.isDigit = true ∨ c = '+' := by
  rw [readNat.eq_def] at h
  split at h
  · rcases List.mem_cons.mp hc with rfl | hc
    · exact .inr rfl
    · exact .inl (isDigit_of_readNumeral h hc)
  · exact .inl (isDigit_of_readNumeral h hc)

theorem isAlphanum_of_isDigit (h : c.isDigit = true) : c.isAlphanum = true := by
  rw [Char.isAlphanum, h, Bool.or_true]

theorem isAlphanum_of_hexValue? (h : hexValue? c = some n) : c.isAlphanum = true := by
  rw [hexValue?] at h
  split at h
  · next hdigit => exact isAlphanum_of_isDigit hdigit
  · split at h
    · next hletter =>
      have hlower : c.isLower = true := Bool.and_eq_true_iff.mpr
        ⟨decide_eq_true hletter.1, decide_eq_true (UInt32.le_trans hletter.2 (by decide))⟩
      show ((c.isUpper || c.isLower) || c.isDigit) = true
      rw [hlower, Bool.or_true, Bool.true_or]
    · split at h
      · next hletter =>
        have hupper : c.isUpper = true :=
          decide_eq_true ⟨hletter.1, UInt32.le_trans hletter.2 (by decide)⟩
        show ((c.isUpper || c.isLower) || c.isDigit) = true
        rw [hupper, Bool.true_or, Bool.true_or]
      · exact absurd h (by simp)

end Text

/-! ### The characters of addresses -/

namespace Address

theorem isDigit_of_readDotted (h : readDotted l = some n) (hc : c ∈ l) :
    c.isDigit = true ∨ c = '.' := by
  have hoctet : ∀ {t k}, readOctet t = some k → c ∈ t → c.isDigit = true := by
    intro t k hread hmem
    rw [readOctet] at hread
    split at hread
    · exact absurd hread (by simp)
    · exact isDigit_of_readNumeral hread hmem
  rcases eq_or_mem_piecesAt '.' hc with hdot | ⟨t, ht, hct⟩
  · exact .inr hdot
  · rw [readDotted] at h
    split at h
    · next w x y z hpieces =>
      simp only [bind, Option.bind_eq_some_iff, pure] at h
      obtain ⟨_, hw, _, hx, _, hy, _, hz, -⟩ := h
      rw [hpieces] at ht
      simp only [List.mem_cons, List.not_mem_nil, or_false] at ht
      rcases ht with rfl | rfl | rfl | rfl
      · exact .inl (hoctet hw hct)
      · exact .inl (hoctet hx hct)
      · exact .inl (hoctet hy hct)
      · exact .inl (hoctet hz hct)
    · exact absurd h (by simp)

theorem isSign_of_readDotted (h : readDotted l = some n) (hc : c ∈ l) : IsSign c :=
  (isDigit_of_readDotted h hc).imp isAlphanum_of_isDigit .inl

theorem isAlphanum_of_readGroup (h : readGroup l = some n) (hc : c ∈ l) : c.isAlphanum = true := by
  have hfold : ∀ (l : List Char) (m : Nat), c ∈ l →
      (l.foldlM (fun n c => (hexValue? c).map (n * 16 + ·)) m).isSome = true →
        c.isAlphanum = true := by
    intro l
    induction l with
    | nil => exact fun _ hc => absurd hc List.not_mem_nil
    | cons d l ih =>
      intro m hc hread
      rw [List.foldlM_cons] at hread
      cases hd : hexValue? d with
      | none =>
        rw [hd] at hread
        exact absurd hread (by simp)
      | some v =>
        rw [hd] at hread
        rcases List.mem_cons.mp hc with rfl | hc
        · exact isAlphanum_of_hexValue? hd
        · exact ih _ hc hread
  rw [readGroup] at h
  split at h
  · exact absurd h (by simp)
  · exact hfold l 0 hc (by rw [h]; rfl)

theorem isSign_of_readGroups {pieces : List (List Char)} {gs : List Nat}
    (h : readGroups pieces = some gs) {t : List Char} (ht : t ∈ pieces) (hc : c ∈ t) :
    IsSign c := by
  fun_induction readGroups pieces generalizing gs with
  | case1 => exact absurd ht List.not_mem_nil
  | case2 last g hread =>
    obtain rfl := List.mem_singleton.mp ht
    exact .inl (isAlphanum_of_readGroup hread hc)
  | case3 last hread =>
    obtain rfl := List.mem_singleton.mp ht
    obtain ⟨k, hk, -⟩ := Option.map_eq_some_iff.mp h
    exact isSign_of_readDotted hk hc
  | case4 piece more hmore ih =>
    simp only [bind, Option.bind_eq_some_iff, pure] at h
    obtain ⟨g, hg, rest, hrest, -⟩ := h
    rcases List.mem_cons.mp ht with rfl | ht
    · exact .inl (isAlphanum_of_readGroup hg hc)
    · exact ih hrest ht

theorem isSign_of_readSide {gs : List Nat} (h : readSide l = some gs) (hc : c ∈ l) : IsSign c := by
  rw [readSide] at h
  split at h
  · next hnil => exact absurd (List.isEmpty_iff.mp hnil ▸ hc) List.not_mem_nil
  · rcases eq_or_mem_piecesAt ':' hc with hcolon | ⟨t, ht, hct⟩
    · exact .inr (.inr hcolon)
    · exact isSign_of_readGroups h ht hct

/-- So are the groups before the gap, if there are any. -/
theorem isSign_of_mapM_readGroup {gs : List Nat} (h : (piecesAt ':' l).mapM readGroup = some gs)
    (hc : c ∈ l) : IsSign c := by
  rcases eq_or_mem_piecesAt ':' hc with hcolon | ⟨t, ht, hct⟩
  · exact .inr (.inr hcolon)
  · obtain ⟨g, hg⟩ := Reading.exists_of_mapM_option h ht
    exact .inl (isAlphanum_of_readGroup hg hct)

/-- The gap is two colons between the texts on its sides. -/
theorem eq_append_of_cutAtGap {x y : List Char} (h : cutAtGap l = some (x, y)) :
    l = x ++ ':' :: ':' :: y := by
  fun_induction cutAtGap l generalizing x y with
  | case1 rest =>
    obtain ⟨rfl, rfl⟩ := Prod.mk.inj (Option.some.inj h)
    rfl
  | case2 d rest hgap ih =>
    obtain ⟨⟨x', y'⟩, hrest, heq⟩ := Option.map_eq_some_iff.mp h
    obtain ⟨rfl, rfl⟩ := Prod.mk.inj heq
    rw [ih hrest]
    rfl
  | case3 => exact nomatch h

/-- One piece stands for two groups at most. -/
theorem length_readGroups_singleton {gs : List Nat} (h : readGroups [l] = some gs) :
    gs.length ≤ 2 := by
  rw [readGroups] at h
  split at h
  · obtain rfl := Option.some.inj h
    simp
  · obtain ⟨k, -, rfl⟩ := Option.map_eq_some_iff.mp h
    simp

/-- **IPv6 addresses are read** from signs of addresses, among them a colon. -/
theorem readColoned_spec (h : readColoned l = some n) : ':' ∈ l ∧ ∀ c ∈ l, IsSign c := by
  rw [readColoned] at h
  split at h
  · simp only [bind, Option.bind_eq_some_iff] at h
    obtain ⟨gs, hgs, h⟩ := h
    refine ⟨Classical.byContradiction fun hcolon => ?_, fun c hc => ?_⟩
    · rw [piecesAt_eq_singleton hcolon] at hgs
      have hlen := length_readGroups_singleton hgs
      rw [if_neg (by omega)] at h
      exact absurd h (by simp)
    · rcases eq_or_mem_piecesAt ':' hc with hcolon | ⟨t, ht, hct⟩
      · exact .inr (.inr hcolon)
      · exact isSign_of_readGroups hgs ht hct
  · next before after hgap =>
    have heq := eq_append_of_cutAtGap hgap
    -- the groups on both sides are read, or there are none before the gap
    have hsides : (before = [] ∨ ∃ gs, (piecesAt ':' before).mapM readGroup = some gs) ∧
        ∃ gs, readSide after = some gs := by
      dsimp only [bind] at h
      split at h
      · next hnil =>
        obtain ⟨front, -, h⟩ := Option.bind_eq_some_iff.mp h
        obtain ⟨back, hback, -⟩ := Option.bind_eq_some_iff.mp h
        exact ⟨.inl (List.isEmpty_iff.mp hnil), back, hback⟩
      · obtain ⟨front, hfront, h⟩ := Option.bind_eq_some_iff.mp h
        obtain ⟨back, hback, -⟩ := Option.bind_eq_some_iff.mp h
        exact ⟨.inr ⟨front, hfront⟩, back, hback⟩
    obtain ⟨hbefore, back, hback⟩ := hsides
    refine ⟨heq ▸ by simp, fun c hc => ?_⟩
    rw [heq, List.mem_append, List.mem_cons, List.mem_cons] at hc
    rcases hc with hc | hc | hc | hc
    · rcases hbefore with rfl | ⟨front, hfront⟩
      · exact absurd hc List.not_mem_nil
      · exact isSign_of_mapM_readGroup hfront hc
    · exact .inr (.inr hc)
    · exact .inr (.inr hc)
    · exact isSign_of_readSide hback hc

/-- **Addresses are read from signs of addresses.** -/
theorem isSign_of_read (h : read f l = some n) (hc : c ∈ l) : IsSign c := by
  cases f with
  | ipv4 =>
    obtain ⟨k, hk, -⟩ := Option.map_eq_some_iff.mp h
    exact isSign_of_readDotted hk hc
  | ipv6 => exact (readColoned_spec h).2 c hc

/-- **The family of an address that is read** is told from its text. -/
theorem colon_mem_iff_of_read (h : read f l = some n) : ':' ∈ l ↔ f = .ipv6 := by
  cases f with
  | ipv4 =>
    obtain ⟨k, hk, -⟩ := Option.map_eq_some_iff.mp h
    refine iff_of_false (fun hcolon => ?_) nofun
    exact absurd (isDigit_of_readDotted hk hcolon) (by decide)
  | ipv6 => exact iff_of_true (readColoned_spec h).1 rfl

/-! ### Bits -/

/-- The bits of an address, counted from the first. -/
def bit (n i : Nat) : Bool := n.testBit (127 - i)

/-- A multiple of the size of a prefix has only clear bits beyond the length. -/
theorem mod_blockSize_eq_zero_iff {len : Nat} :
    n % blockSize len = 0 ↔ ∀ i, len ≤ i → i < 128 → bit n i = false := by
  rw [blockSize_eq]
  constructor
  · intro h i hlen hi
    have hrest : (n % 2 ^ (128 - len)).testBit (127 - i) = false := by
      rw [h, Nat.zero_testBit]
    rwa [Nat.testBit_mod_two_pow, decide_eq_true (by omega), Bool.true_and] at hrest
  · intro h
    refine Nat.eq_of_testBit_eq fun j => ?_
    rw [Nat.zero_testBit, Nat.testBit_mod_two_pow, Bool.and_eq_false_imp, decide_eq_true_eq]
    intro hj
    have hbit := h (127 - j) (by omega) (by omega)
    rwa [bit, show 127 - (127 - j) = j by omega] at hbit

/-- Of an address that is read only the bits of the family have to be looked at. -/
theorem mod_blockSize_eq_zero_iff_of_read (h : read f l = some n) {len : Nat} :
    n % blockSize len = 0 ↔ ∀ i, len ≤ i → i < f.bits → bit n i = false := by
  have hlow : ∀ i, f.bits ≤ i → i < 128 → bit n i = false :=
    mod_blockSize_eq_zero_iff.mp (whole_of_read h).start
  rw [mod_blockSize_eq_zero_iff]
  refine ⟨fun h i hlen hi => h i hlen (Nat.lt_of_lt_of_le hi f.bits_le), fun h i hlen hi => ?_⟩
  rcases Nat.lt_or_ge i f.bits with hlt | hge
  · exact h i hlen hlt
  · exact hlow i hge hi

end Address

/-! ### Prefixes -/

namespace Prefix

variable {p : Prefix} {addr len : Nat}

/-- **The notation of a prefix**: an address of the family, a slash and a length that the family
has, with no bit of the address set beyond the length. -/
structure Denotes (l : List Char) (f : Family) (addr len : Nat) : Prop where
  parts : ∃ a d, l = a ++ '/' :: d ∧ Address.read f a = some addr ∧ readNat max8 d = some len
  len_le : len ≤ f.bits
  clear : ∀ i, len ≤ i → i < f.bits → bit addr i = false

/-- The prefix that a notation stands for. -/
theorem Denotes.exists_prefix (h : Denotes l f addr len) :
    ∃ p : Prefix, p.family = f ∧ p.addr = addr ∧ p.len = len := by
  obtain ⟨a, d, -, hread, -⟩ := h.parts
  exact ⟨⟨f, addr, len, h.len_le, lt_space_of_read hread,
    (mod_blockSize_eq_zero_iff_of_read hread).mpr h.clear⟩, rfl, rfl, rfl⟩

/-- **What is read as a prefix** is its notation. -/
theorem readExact_eq_some_iff : readExact l = some p ↔ Denotes l p.family p.addr p.len := by
  constructor
  · intro h
    simp only [readExact, bind, Option.bind_eq_some_iff, Prod.exists] at h
    obtain ⟨addr, len, hparts, h⟩ := h
    generalize (if l.contains ':' = true then Family.ipv6 else Family.ipv4) = f at hparts h
    obtain ⟨a, d, hl, -, hread, hlen, hle⟩ := readParts_eq_some_iff.mp hparts
    obtain ⟨haddr, hp⟩ := Option.ite_none_right_eq_some.mp h
    obtain rfl := Option.some.inj hp
    have hlen' : (containing f addr len).len = len := Nat.min_eq_left hle
    have haligned := (containing f addr len).aligned
    rw [haddr, hlen'] at haligned ⊢
    exact ⟨⟨a, d, hl, hread, hlen⟩, hle, (mod_blockSize_eq_zero_iff_of_read hread).mp haligned⟩
  · intro h
    obtain ⟨a, d, rfl, hread, hlen⟩ := h.parts
    -- neither the slash nor the length has a colon, so the address decides
    have hcolon : ':' ∈ a ++ '/' :: d ↔ p.family = .ipv6 := by
      have hdigits : ':' ∉ d := fun hmem => absurd (isDigit_of_readNat hlen hmem) (by decide)
      rw [← colon_mem_iff_of_read hread, List.mem_append, List.mem_cons]
      exact ⟨fun h => h.elim id (·.elim (fun h => absurd h (by decide)) fun h => absurd h hdigits),
        .inl⟩
    have hfamily :
        (if (a ++ '/' :: d).contains ':' = true then Family.ipv6 else Family.ipv4) = p.family := by
      simp only [List.contains_iff_mem, hcolon]
      cases p.family <;> rfl
    have hparts : readParts p.family (a ++ '/' :: d) = some (p.addr, p.len) :=
      readParts_eq_some_iff.mpr ⟨a, d, rfl, fun hslash =>
        (isSign_of_read hread hslash).spec.2.2.1 rfl, hread, hlen, p.len_le⟩
    simp only [readExact, hfamily, hparts, (eq_containing p.addr_mem_block).symm,
      Option.bind_eq_bind, Option.bind_some, if_true]

/-- Reads an address of whichever family it is of. -/
def readAddress (l : List Char) : Option Nat := (Address.read .ipv4 l).or (Address.read .ipv6 l)

theorem readAddress_eq_some_iff : readAddress l = some n ↔ ∃ f, Address.read f l = some n := by
  rw [readAddress, Option.or_eq_some_iff]
  constructor
  · rintro (h | ⟨-, h⟩)
    · exact ⟨.ipv4, h⟩
    · exact ⟨.ipv6, h⟩
  · rintro ⟨_ | _, h⟩
    · exact .inl h
    · refine .inr ⟨Option.eq_none_iff_forall_ne_some.mpr fun m hm => ?_, h⟩
      -- a text is not read as addresses of both families
      exact nomatch (colon_mem_iff_of_read hm).mp ((colon_mem_iff_of_read h).mpr rfl)

/-- Reads a prefix by comparison: the address is read on its own first, and then has to be the first
one of the prefix whose further bits are cleared. -/
def readCompared (l : List Char) : Option Prefix := do
  let (a, _) ← cutAt '/' l
  let addr ← readAddress a
  let p ← readCleared (if l.contains ':' then .ipv6 else .ipv4) l
  if p.addr = addr then some p else none

/-- **The comparison finds exactly the further bits**, whatever the address is first taken for. -/
theorem readCompared_eq (l : List Char) : readCompared l = readExact l := by
  rw [readCompared, readExact]
  generalize (if l.contains ':' = true then Family.ipv6 else Family.ipv4) = f
  cases hparts : readParts f l with
  | none => simp [readCleared, hparts]
  | some parts =>
    obtain ⟨addr, len⟩ := parts
    obtain ⟨a, d, hl, hslash, hread, -, -⟩ := readParts_eq_some_iff.mp hparts
    have hcut : cutAt '/' l = some (a, d) := cutAt_eq_some_iff.mpr ⟨hl, hslash⟩
    simp only [hcut, readAddress_eq_some_iff.mpr ⟨f, hread⟩, readCleared, hparts, Option.map_some,
      Option.bind_eq_bind, Option.bind_some]

/-- **Texts that are accepted** are those that are a notation without the white space around it. -/
theorem parse_eq_ok_iff {s : String} :
    parse s = .ok p ↔ Denotes (trimmed s.toList) p.family p.addr p.len := by
  rw [← readExact_eq_some_iff, parse]
  cases readExact (trimmed s.toList) with
  | none => exact iff_of_false (by simp) (by simp)
  | some q =>
    exact ⟨fun h => congrArg some (Except.ok.inj h), fun h => congrArg _ (Option.some.inj h)⟩

/-- Prefixes are read back, however they are spelled. -/
theorem Spelling.parse {s : String} (h : p.Spelling s) : parse s = .ok p := by
  rw [Prefix.parse, trimmed_eq_self fun c => h.isBlank_eq_false, h.readExact]

end Prefix

end RpkiAuthority
