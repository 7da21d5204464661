import RpkiAuthority.Aspa.Configuration
import RpkiAuthority.Bgp.Riswhois
import RpkiAuthority.Proofs.Resource.Items

/-!
# Where reading breaks off

The letters of an AS number are looked for in the first two bytes of its text, and a text of more
bytes may have a character that goes on behind them. Such a text is cut (`Asn.IsCut`), and reading
it gives neither a value nor a refusal (`Asn.breaksOff_read_iff`).

Nothing else breaks off, but everything that reads AS numbers hands it on. Lists are read up to the
first member at fault (`Reading.mapM_eq_error_iff`), so a whole text breaks off exactly if the first
fault in it is a cut AS number, with the white space and the limit around it taken off. That is said
for resources (`ResourceSet.breaksOff_read_iff`), for providers and entries of ASPA configuration
(`AspaProvider.breaksOff_read_iff`, `AspaEntry.breaksOff_read_iff`) and for data of route collectors
(`Riswhois.breaksOff_read_iff`, `Riswhois.breaksOff_readBytes_iff`).
-/

namespace RpkiAuthority

open Text

/-! ### Readers that break off -/

namespace Reading

variable {ε δ α β : Type} {x : Reading ε α} {fault : Fault ε}

/-- **Reading breaks off**: it gives neither a value nor a cause. -/
def BreaksOff (x : Reading ε α) : Prop := x = .error .aborted

theorem not_breaksOff_ok {a : α} : ¬BreaksOff (.ok a : Reading ε α) := by
  simp [BreaksOff]

theorem not_breaksOff_refused {cause : ε} :
    ¬BreaksOff (.error (.refused cause) : Reading ε α) := by
  simp [BreaksOff]

/-- A value is read. -/
def Reads (x : Reading ε α) : Prop := ∃ a, x = .ok a

/-- **The first member at fault** is one of a kind. -/
def FirstFault (g : α → Reading ε β) (P : α → Prop) (l : List α) : Prop :=
  ∃ before a after, l = before ++ a :: after ∧ (∀ b ∈ before, (g b).Reads) ∧ P a

theorem bind_eq_error_iff {g : α → Reading ε β} :
    x >>= g = .error fault ↔ x = .error fault ∨ ∃ a, x = .ok a ∧ g a = .error fault := by
  cases x with
  | ok a =>
    exact ⟨fun h => .inr ⟨a, rfl, h⟩, fun h => h.elim (fun h => nomatch h)
      fun ⟨_, ha, h⟩ => Except.ok.inj ha ▸ h⟩
  | error e =>
    exact ⟨fun h => .inl (congrArg _ (Except.error.inj h)), fun h => h.elim
      (fun h => congrArg _ (Except.error.inj h)) fun ⟨_, ha, _⟩ => nomatch ha⟩

/-- What is made of a value is at no fault. -/
theorem bind_pure_eq_error_iff {f : α → β} :
    x >>= (fun a => pure (f a)) = .error fault ↔ x = .error fault :=
  bind_eq_error_iff.trans (or_iff_left fun ⟨_, _, h⟩ => nomatch h)

@[simp] theorem breaksOff_mapCause {f : ε → δ} : (mapCause f x).BreaksOff ↔ x.BreaksOff := by
  rcases x with (_ | _) | a
  · exact iff_of_false not_breaksOff_refused not_breaksOff_refused
  · exact iff_of_true rfl rfl
  · exact iff_of_false not_breaksOff_ok not_breaksOff_ok

theorem breaksOff_map {f : α → β} : BreaksOff (Except.map f x) ↔ x.BreaksOff := by
  cases x with
  | ok a => exact iff_of_false not_breaksOff_ok not_breaksOff_ok
  | error e =>
    exact ⟨fun h => congrArg _ (Except.error.inj h), fun h => congrArg _ (Except.error.inj h)⟩

theorem not_breaksOff_ofOption {cause : ε} {o : Option α} : ¬(ofOption cause o).BreaksOff := by
  cases o with
  | none => exact not_breaksOff_refused
  | some a => exact not_breaksOff_ok

/-- **A list is read up to the first fault.** -/
theorem mapM_eq_error_iff {g : α → Reading ε β} {l : List α} :
    l.mapM g = .error fault ↔ FirstFault g (fun a => g a = .error fault) l := by
  induction l with
  | nil => exact iff_of_false nofun fun ⟨before, a, after, h, _⟩ => by simp at h
  | cons a l ih =>
    rw [List.mapM_cons, bind_eq_error_iff]
    simp only [bind_eq_error_iff, ih]
    constructor
    · rintro (h | ⟨b, hb, ⟨before, c, after, rfl, hbefore, hc⟩ | ⟨r, -, h⟩⟩)
      · exact ⟨[], a, l, rfl, fun _ h => absurd h List.not_mem_nil, h⟩
      · exact ⟨a :: before, c, after, rfl, List.forall_mem_cons.mpr ⟨⟨b, hb⟩, hbefore⟩, hc⟩
      · exact nomatch h
    · rintro ⟨before, c, after, heq, hbefore, hc⟩
      cases before with
      | nil =>
        obtain ⟨rfl, rfl⟩ := List.cons.inj heq
        exact .inl hc
      | cons b before =>
        obtain ⟨rfl, rfl⟩ := List.cons.inj heq
        obtain ⟨⟨r, hr⟩, hmore⟩ := List.forall_mem_cons.mp hbefore
        exact .inr ⟨r, hr, .inl ⟨before, c, after, rfl, hmore, hc⟩⟩

theorem FirstFault.congr {g : α → Reading ε β} {P Q : α → Prop} {l : List α}
    (h : ∀ a, P a ↔ Q a) : FirstFault g P l ↔ FirstFault g Q l := by
  simp only [FirstFault, h]

/-- Where members have no other fault, the first one is there as soon as one is. -/
theorem firstFault_iff {g : α → Reading ε β} {P : α → Prop} (h : ∀ a, (g a).Reads ∨ P a)
    {l : List α} : FirstFault g P l ↔ ∃ a ∈ l, P a := by
  constructor
  · rintro ⟨before, a, after, rfl, -, ha⟩
    exact ⟨a, by simp, ha⟩
  · rintro ⟨a, hmem, ha⟩
    induction l with
    | nil => exact absurd hmem List.not_mem_nil
    | cons b l ih =>
      rcases h b with hb | hb
      · rcases List.mem_cons.mp hmem with rfl | hmem
        · exact ⟨[], a, l, rfl, fun _ h => absurd h List.not_mem_nil, ha⟩
        · obtain ⟨before, c, after, rfl, hbefore, hc⟩ := ih hmem
          exact ⟨b :: before, c, after, rfl, List.forall_mem_cons.mpr ⟨hb, hbefore⟩, hc⟩
      · exact ⟨[], b, l, rfl, fun _ h => absurd h List.not_mem_nil, hb⟩

end Reading

open Reading

/-! ### AS numbers -/

namespace Asn

variable {l : List Char}

/-- **A text is cut** if it has more than two bytes and these do not end with a character. -/
def IsCut (l : List Char) : Prop :=
  2 < (String.ofList l).utf8ByteSize ∧ ¬String.Pos.Raw.IsValid (String.ofList l) ⟨2⟩

/-- Some characters take up a number of bytes in front of a text. -/
def EndsAt (n : Nat) (l : List Char) : Prop := ∃ i, n = (String.ofList (l.take i)).utf8ByteSize

theorem endsAt_nil {n : Nat} : EndsAt n [] ↔ n = 0 := by
  simp [EndsAt]

theorem endsAt_cons {n : Nat} {c : Char} :
    EndsAt n (c :: l) ↔ n = 0 ∨ ∃ m, n = c.utf8Size + m ∧ EndsAt m l := by
  have hcons : ∀ l, (String.ofList (c :: l)).utf8ByteSize =
      c.utf8Size + (String.ofList l).utf8ByteSize := by
    intro l
    rw [String.ofList_cons, String.utf8ByteSize_append, String.utf8ByteSize_singleton]
  constructor
  · rintro ⟨_ | i, h⟩
    · exact .inl h
    · exact .inr ⟨_, by rw [h, List.take_succ_cons, hcons], i, rfl⟩
  · rintro (rfl | ⟨m, h, i, rfl⟩)
    · exact ⟨0, rfl⟩
    · exact ⟨i + 1, by rw [h, List.take_succ_cons, hcons]⟩

/-- The first characters of a text end at two bytes in two ways. -/
theorem endsAt_two_iff {c d : Char} :
    EndsAt 2 (c :: d :: l) ↔ c.utf8Size = 2 ∨ c.utf8Size = 1 ∧ d.utf8Size = 1 := by
  have hc := c.utf8Size_pos
  have hd := d.utf8Size_pos
  have hzero : EndsAt 0 l := ⟨0, rfl⟩
  simp only [endsAt_cons]
  constructor
  · rintro (h | ⟨m, hm, rfl | ⟨k, rfl, -⟩⟩)
    · exact absurd h (by decide)
    · exact .inl (by omega)
    · exact .inr (by omega)
  · rintro (h | ⟨hone, hone'⟩)
    · exact .inr ⟨0, by omega, .inl rfl⟩
    · exact .inr ⟨1, by omega, .inr ⟨0, by omega, hzero⟩⟩

theorem isCut_iff : IsCut l ↔ 2 < (String.ofList l).utf8ByteSize ∧ ¬EndsAt 2 l := by
  rw [IsCut, String.Pos.Raw.isValid_ofList]
  rfl

/-- The letters are looked for in a text that is not cut. -/
theorem dropLetters_eq_aborted_iff : dropLetters l = .error .aborted ↔ IsCut l := by
  rw [isCut_iff, dropLetters.eq_def]
  split
  · next hle => exact iff_of_false nofun fun h => absurd h.1 (Nat.not_lt.mpr hle)
  · next hle =>
    rw [and_iff_right (Nat.lt_of_not_le hle)]
    rcases l with _ | ⟨c, _ | ⟨d, rest⟩⟩
    · exact absurd (by decide) hle
    · have hsize : (String.ofList [c]).utf8ByteSize = c.utf8Size := by
        rw [← String.singleton_eq_ofList, String.utf8ByteSize_singleton]
      refine iff_of_true rfl fun h => ?_
      obtain h | ⟨m, hm, hzero⟩ := endsAt_cons.mp h
      · exact absurd h (by decide)
      · rw [endsAt_nil] at hzero
        omega
    · rw [endsAt_two_iff]
      dsimp only
      split_ifs <;> simp_all

/-- **Reading an AS number breaks off** exactly if its text is cut. -/
theorem breaksOff_read_iff : (read l).BreaksOff ↔ IsCut l := by
  rw [← dropLetters_eq_aborted_iff, read, BreaksOff, bind_eq_error_iff]
  exact or_iff_left fun ⟨_, _, h⟩ => not_breaksOff_ofOption h

/-- Only a text with a character of several bytes is cut. -/
theorem IsCut.exists_large (h : IsCut l) : ∃ c ∈ l, 1 < c.utf8Size := by
  by_contra hall
  have hone : ∀ c ∈ l, c.utf8Size = 1 := fun c hc =>
    Nat.le_antisymm (Nat.le_of_not_lt fun hlt => hall ⟨c, hc, hlt⟩) c.utf8Size_pos
  obtain ⟨hsize, hends⟩ := isCut_iff.mp h
  rcases l with _ | ⟨c, _ | ⟨d, rest⟩⟩
  · exact absurd hsize (by decide)
  · rw [← String.singleton_eq_ofList, String.utf8ByteSize_singleton,
      hone c List.mem_cons_self] at hsize
    exact absurd hsize (by decide)
  · exact hends (endsAt_two_iff.mpr (.inr ⟨hone c (by simp), hone d (by simp)⟩))

/-- A single AS number between white space. -/
theorem breaksOff_parse_iff {s : String} : (parse s).BreaksOff ↔ IsCut (trimmed s.toList) := by
  rw [parse, breaksOff_mapCause, breaksOff_read_iff]

end Asn

/-! ### Resources -/

/-- **A text about a range of AS numbers is cut** if one of its ends is; the first is looked at
first. -/
inductive Block.IsCut (l : List Char) : Prop where
  | single (hdash : '-' ∉ l) (hcut : Asn.IsCut l)
  | first {first last : List Char} (heq : l = first ++ '-' :: last) (hdash : '-' ∉ first)
    (hlast : last ≠ []) (hcut : Asn.IsCut first)
  | last {first last : List Char} (heq : l = first ++ '-' :: last) (hdash : '-' ∉ first)
    (hfirst : (Asn.read first).Reads) (hcut : Asn.IsCut last)

theorem Block.breaksOff_readAsns_iff {l : List Char} : (readAsns l).BreaksOff ↔ IsCut l := by
  rw [readAsns]
  cases h : cutAt '-' l with
  | none =>
    rw [cutAt_eq_none_iff] at h
    have hsingle : IsCut l ↔ Asn.IsCut l := by
      refine ⟨fun hcut => ?_, .single h⟩
      cases hcut with
      | single _ hcut => exact hcut
      | first heq => exact absurd (by simp [heq]) h
      | last heq => exact absurd (by simp [heq]) h
    rw [hsingle, ← Asn.breaksOff_read_iff]
    exact bind_pure_eq_error_iff
  | some ends =>
    obtain ⟨first, last⟩ := ends
    obtain ⟨heq, hdash⟩ := cutAt_eq_some_iff.mp h
    -- the text is cut at its first dash, so these are the ends that the definition speaks of
    have hends : IsCut l ↔
        last ≠ [] ∧ (Asn.IsCut first ∨ (Asn.read first).Reads ∧ Asn.IsCut last) := by
      constructor
      · rintro (⟨hnone, -⟩ | ⟨heq', hdash', hlast, hcut⟩ | ⟨heq', hdash', hfirst, hcut⟩)
        · exact absurd (by simp [heq]) hnone
        · obtain ⟨rfl, rfl⟩ := eq_of_cut heq hdash heq' hdash'
          exact ⟨hlast, .inl hcut⟩
        · obtain ⟨rfl, rfl⟩ := eq_of_cut heq hdash heq' hdash'
          exact ⟨fun hnil => absurd (hnil ▸ hcut).1 (by decide), .inr ⟨hfirst, hcut⟩⟩
      · rintro ⟨hlast, hcut | ⟨hfirst, hcut⟩⟩
        · exact .first heq hdash hlast hcut
        · exact .last heq hdash hfirst hcut
    rw [hends]
    cases last with
    | nil => exact iff_of_false not_breaksOff_refused fun h => h.1 rfl
    | cons c rest =>
      rw [and_iff_right (List.cons_ne_nil c rest), ← Asn.breaksOff_read_iff,
        ← Asn.breaksOff_read_iff]
      refine bind_eq_error_iff.trans (or_congr_right ?_)
      constructor
      · rintro ⟨a, ha, h⟩
        exact ⟨⟨a, ha⟩, bind_pure_eq_error_iff.mp h⟩
      · rintro ⟨⟨a, ha⟩, h⟩
        exact ⟨a, ha, bind_pure_eq_error_iff.mpr h⟩

namespace ResourceSet

variable {item : List Char}

/-- An item is cut if it is about AS numbers and they are. -/
def ItemIsCut (item : List Char) : Prop := familyOf? item = none ∧ Block.IsCut item

theorem not_breaksOff_requireOrder {b : Block} : ¬(requireOrder item b).BreaksOff := by
  rw [requireOrder]
  split
  · exact not_breaksOff_refused
  · exact not_breaksOff_ok

theorem not_breaksOff_readAddressItem {f : Family} : ¬(readAddressItem f item).BreaksOff := by
  rw [readAddressItem, BreaksOff, bind_eq_error_iff]
  rintro (h | ⟨b, -, h⟩)
  · exact not_breaksOff_ofOption h
  · exact not_breaksOff_requireOrder (bind_pure_eq_error_iff.mp h)

theorem breaksOff_readItem_iff : (readItem item).BreaksOff ↔ ItemIsCut item := by
  rw [ItemIsCut, familyOf?, readItem]
  split
  · exact iff_of_false not_breaksOff_readAddressItem fun h => Option.some_ne_none _ h.1
  · split
    · exact iff_of_false not_breaksOff_readAddressItem fun h => Option.some_ne_none _ h.1
    · rw [and_iff_right rfl, ← Block.breaksOff_readAsns_iff, BreaksOff, bind_eq_error_iff]
      refine (or_iff_left ?_).trans breaksOff_mapCause
      rintro ⟨b, -, h⟩
      exact not_breaksOff_requireOrder (bind_pure_eq_error_iff.mp h)

/-- **Reading resources breaks off** exactly if the first item at fault is cut. -/
theorem breaksOff_read_iff {s : String} :
    (read s).BreaksOff ↔ FirstFault readItem ItemIsCut (items s.toList) := by
  rw [read, BreaksOff, bind_pure_eq_error_iff, mapM_eq_error_iff]
  exact FirstFault.congr fun _ => breaksOff_readItem_iff

end ResourceSet

/-! ### ASPA configuration -/

/-- A provider is cut if its AS number is. -/
def AspaProvider.IsCut (l : List Char) : Prop := Asn.IsCut (trimmed (splitLimit (trimmed l)).1)

theorem AspaProvider.breaksOff_read_iff {l : List Char} : (read l).BreaksOff ↔ IsCut l := by
  rw [read, BreaksOff, bind_pure_eq_error_iff, IsCut, ← Asn.breaksOff_read_iff]
  exact breaksOff_mapCause

namespace AspaEntry

variable {l : List Char}

/-- Providers are cut if there are some and the first at fault is. -/
def ProvidersAreCut (l : List Char) : Prop :=
  trimmed l ≠ "<none>".toList ∧ FirstFault AspaProvider.read AspaProvider.IsCut (piecesAt ',' l)

/-- **A customer with providers is cut** if one of them is; the customer is looked at first. -/
inductive IsCut (l : List Char) : Prop where
  | customer {customer : List Char} {more : List (List Char)}
    (heq : piecesAtPair '=' '>' l = customer :: more) (hcut : Asn.IsCut (trimmed customer))
  | providers {customer providers : List Char} {more : List (List Char)}
    (heq : piecesAtPair '=' '>' l = customer :: providers :: more)
    (hcustomer : (Asn.read (trimmed customer)).Reads) (hcut : ProvidersAreCut providers)

theorem breaksOff_readProviders_iff : (readProviders l).BreaksOff ↔ ProvidersAreCut l := by
  rw [readProviders, ProvidersAreCut]
  split
  · next h => exact iff_of_false not_breaksOff_ok fun hcut => hcut.1 h
  · next h =>
    rw [and_iff_right h, BreaksOff, mapM_eq_error_iff]
    exact FirstFault.congr fun _ => AspaProvider.breaksOff_read_iff

/-- **Reading an entry breaks off** exactly if it is cut. -/
theorem breaksOff_read_iff : (read l).BreaksOff ↔ IsCut l := by
  rw [read]
  cases h : piecesAtPair '=' '>' l with
  | nil => exact absurd h (piecesAtPair_ne_nil l)
  | cons customer more =>
    have hcut : IsCut l ↔ Asn.IsCut (trimmed customer) ∨ (Asn.read (trimmed customer)).Reads ∧
        ∃ providers rest, more = providers :: rest ∧ ProvidersAreCut providers := by
      constructor
      · rintro (⟨heq, hcut⟩ | ⟨heq, hcustomer, hcut⟩)
        · obtain ⟨rfl, rfl⟩ := List.cons.inj (h.symm.trans heq)
          exact .inl hcut
        · obtain ⟨rfl, rfl⟩ := List.cons.inj (h.symm.trans heq)
          exact .inr ⟨hcustomer, _, _, rfl, hcut⟩
      · rintro (hcut | ⟨hcustomer, providers, rest, rfl, hcut⟩)
        · exact .customer h hcut
        · exact .providers h hcustomer hcut
    rw [hcut, ← Asn.breaksOff_read_iff]
    refine bind_eq_error_iff.trans (or_congr breaksOff_mapCause ?_)
    simp only [mapCause_eq_ok, Reads, exists_and_right.symm]
    refine exists_congr fun asn => and_congr_right fun _ => ?_
    have hhead : ∀ {p : List Char} {r : List (List Char)},
        (readProviders p).BreaksOff ↔ ∃ q s, p :: r = q :: s ∧ ProvidersAreCut q := fun {p r} =>
      breaksOff_readProviders_iff.trans
        ⟨fun h => ⟨p, r, rfl, h⟩, fun ⟨_, _, heq, h⟩ => (List.cons.inj heq).1 ▸ h⟩
    -- further parts are refused after the providers are read
    rcases more with _ | ⟨providers, _ | ⟨extra, rest⟩⟩
    · exact iff_of_false not_breaksOff_ok fun ⟨_, _, heq, _⟩ => List.cons_ne_nil _ _ heq.symm
    · exact bind_pure_eq_error_iff.trans hhead
    · exact (bind_eq_error_iff.trans (or_iff_left fun ⟨_, _, h⟩ => nomatch h)).trans hhead

end AspaEntry

/-! ### Route collectors -/

namespace Riswhois

variable {line : List Char} {fault : Fault DataError}

/-- **A line is cut** if it is no comment, has three columns, and the first of them is a cut AS
number. -/
def LineIsCut (line : List Char) : Prop :=
  (trimmed line).head? ≠ some '%' ∧ ∃ origin pfx peers more,
    words (trimmed line) = origin :: pfx :: peers :: more ∧ '\x7b' ∉ origin ∧
      Asn.IsCut (trimmed origin)

theorem readColumns_eq_error_iff {origin pfx peers : List Char} :
    readColumns origin pfx peers = .error fault ↔
      fault = .aborted ∧ '\x7b' ∉ origin ∧ Asn.IsCut (trimmed origin) := by
  rw [readColumns, ← Asn.breaksOff_read_iff]
  split
  · next h => exact iff_of_false nofun fun hcut => hcut.2.1 (List.contains_iff_mem.mp h)
  · next h =>
    rw [List.contains_iff_mem] at h
    rw [and_iff_right h]
    split
    · next hread => exact ⟨fun h => ⟨(Except.error.inj h).symm, hread⟩, fun h => h.1 ▸ rfl⟩
    · next hread => exact iff_of_false nofun fun hcut => nomatch hread.symm.trans hcut.2
    · next hread => exact iff_of_false nofun fun hcut => nomatch hread.symm.trans hcut.2

/-- Nothing in a line is refused, so a line is read unless it is cut. -/
theorem readLine_eq_error_iff :
    readLine line = .error fault ↔ fault = .aborted ∧ LineIsCut line := by
  have hnil : words [] = [] := rfl
  rw [readLine, LineIsCut]
  split
  · next hskip =>
    refine iff_of_false nofun fun ⟨_, hcomment, _, _, _, _, hwords, _⟩ => ?_
    rcases hskip with hempty | hskip
    · rw [List.isEmpty_iff.mp hempty, hnil] at hwords
      exact nomatch hwords
    · exact hcomment hskip
  · next hskip =>
    rw [and_iff_right fun hcomment => hskip (.inr hcomment)]
    split
    · next origin pfx peers more hwords =>
      rw [readColumns_eq_error_iff]
      refine and_congr_right fun _ => ⟨fun h => ⟨origin, pfx, peers, more, hwords, h⟩, ?_⟩
      rintro ⟨_, _, _, _, heq, h⟩
      exact (List.cons.inj (hwords.symm.trans heq)).1 ▸ h
    · next hcolumns =>
      exact iff_of_false nofun fun ⟨_, origin, pfx, peers, more, hwords, _⟩ =>
        hcolumns origin pfx peers more hwords

theorem breaksOff_readLine_iff : (readLine line).BreaksOff ↔ LineIsCut line :=
  readLine_eq_error_iff.trans (and_iff_right rfl)

/-- **Reading data breaks off** exactly if a line is cut. -/
theorem breaksOff_read_iff {data : String} :
    (read data).BreaksOff ↔ ∃ line ∈ piecesAt '\n' data.toList, LineIsCut line := by
  have hline : ∀ line, (readLine line).Reads ∨ LineIsCut line := by
    intro line
    cases h : readLine line with
    | ok entry => exact .inl ⟨entry, rfl⟩
    | error fault => exact .inr (readLine_eq_error_iff.mp h).2
  rw [← firstFault_iff hline, read]
  exact (bind_pure_eq_error_iff.trans mapM_eq_error_iff).trans
    (FirstFault.congr fun _ => breaksOff_readLine_iff)

/-- Data given as text is never refused. -/
theorem read_ne_refused (data : String) (cause : DataError) :
    read data ≠ .error (.refused cause) := by
  intro h
  obtain ⟨_, line, _, -, -, hline⟩ := mapM_eq_error_iff.mp (bind_pure_eq_error_iff.mp h)
  exact nomatch (readLine_eq_error_iff.mp hline).1

/-- A line given as bytes is cut if its text is. -/
def ByteLineIsCut (line : List UInt8) : Prop :=
  ∃ s, String.fromUTF8? line.toByteArray = some s ∧ LineIsCut s.toList

/-- A line given as bytes is also at fault if it is not in UTF-8. -/
theorem readByteLine_eq_error_iff {line : List UInt8} :
    readByteLine line = .error fault ↔
      fault = .aborted ∧ ByteLineIsCut line ∨
        fault = .refused .notUtf8 ∧ String.fromUTF8? line.toByteArray = none := by
  rw [readByteLine, ByteLineIsCut]
  cases String.fromUTF8? line.toByteArray with
  | none => exact ⟨fun h => .inr ⟨(Except.error.inj h).symm, rfl⟩, fun h => by simp_all⟩
  | some s =>
    refine readLine_eq_error_iff.trans ?_
    simp

/-- **So the first line at fault decides** what becomes of data given as bytes. -/
theorem readBytes_eq_error_iff {data : List UInt8} :
    readBytes data = .error fault ↔
      FirstFault readByteLine (fun line => readByteLine line = .error fault) (byteLines data) :=
  bind_pure_eq_error_iff.trans mapM_eq_error_iff

theorem breaksOff_readBytes_iff {data : List UInt8} :
    (readBytes data).BreaksOff ↔ FirstFault readByteLine ByteLineIsCut (byteLines data) :=
  readBytes_eq_error_iff.trans (FirstFault.congr fun _ => readByteLine_eq_error_iff.trans (by simp))

theorem readBytes_eq_refused_iff {data : List UInt8} {cause : DataError} :
    readBytes data = .error (.refused cause) ↔
      FirstFault readByteLine (fun line => String.fromUTF8? line.toByteArray = none)
        (byteLines data) := by
  cases cause
  exact readBytes_eq_error_iff.trans
    (FirstFault.congr fun _ => readByteLine_eq_error_iff.trans (by simp))

end Riswhois

end RpkiAuthority
