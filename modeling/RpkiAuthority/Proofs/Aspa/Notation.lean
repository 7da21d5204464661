import RpkiAuthority.Engine.Handlers
import RpkiAuthority.Proofs.Aspa.Submitted
import RpkiAuthority.Proofs.Resource.RoundTrip

/-!
# ASPA configuration is what its text says

An entry is written as its customer, an arrow and its providers, and a configuration as the lines of
its entries. Both are read back as they were.

* An entry may repeat providers, and they are kept as they come (`AspaEntry.read_text`). The arrow
  is found because its first character is in neither of its sides, and the providers are cut at
  commas that none of them has.
* The entries of a configuration repeat nothing, so putting them together again gives the
  configuration (`AspaConfiguration.ofEntries_toEntries`).

So no two configurations have the same text. The entity tag is a hash of the text, and there are
more texts than hashes: a tag that matches means the same configuration **unless two texts collide**
(`Sha256.Collision`), which is all that has to be assumed of the hash. An update is accepted only
with the tag of the configuration that is there, so it was meant for that configuration
(`AspaConfiguration.identified_by_tag`).
-/

namespace RpkiAuthority

open Text

/-- Two texts that differ and have the same hash. -/
def Sha256.Collision (s t : String) : Prop := s ≠ t ∧ hexOfText s = hexOfText t

/-! ### Providers -/

namespace AspaProvider

variable {p : AspaProvider} {c : Char}

theorem toList_text (p : AspaProvider) :
    p.text.toList = p.asn.text.toList ++ p.limit.suffix.toList :=
  String.toList_append

/-- Providers are written with letters, digits and parentheses. -/
theorem isAlphanum_of_mem_text (h : c ∈ p.text.toList) :
    c.isAlphanum = true ∨ c = '(' ∨ c = ')' := by
  have hsuffix : ∀ limit : AspaLimit, ∀ c ∈ limit.suffix.toList,
      c.isAlphanum = true ∨ c = '(' ∨ c = ')' := by
    intro limit
    cases limit <;> simp [AspaLimit.suffix]
  rw [toList_text, List.mem_append] at h
  exact h.elim (fun h => .inl (Asn.isAlphanum_of_mem_text h)) (hsuffix p.limit c)

/-- **The limit** is told from the suffix: an AS number does not end like one. -/
theorem splitLimit_text (p : AspaProvider) :
    splitLimit p.text.toList = (p.asn.text.toList, p.limit) := by
  obtain ⟨asn, limit⟩ := p
  have hparen : ')' ∉ asn.text.toList := fun h =>
    absurd (Asn.isAlphanum_of_mem_text h) (by decide)
  rw [toList_text, splitLimit]
  cases limit with
  | any =>
    have htext : asn.text.toList ++ AspaLimit.any.suffix.toList = asn.text.toList :=
      List.append_nil _
    rw [htext, dropEnding?_eq_none (by decide) hparen, dropEnding?_eq_none (by decide) hparen]
  | ipv4 => rw [dropEnding?_eq_some_iff.mpr rfl]
  | ipv6 =>
    -- the two suffixes are of one length, and they differ
    have hother : dropEnding? AspaLimit.ipv4.suffix.toList
        (asn.text.toList ++ AspaLimit.ipv6.suffix.toList) = none := by
      rw [Option.eq_none_iff_forall_ne_some]
      intro r hr
      have heq := dropEnding?_eq_some_iff.mp hr
      exact absurd (List.append_inj_right' heq rfl) (by decide)
    rw [hother, dropEnding?_eq_some_iff.mpr rfl]

/-- **A provider is read back**, also with blanks around it. -/
theorem read_of_trimmed {l : List Char} (h : trimmed l = p.text.toList) : read l = .ok p := by
  have hnumber : trimmed p.asn.text.toList = p.asn.text.toList :=
    trimmed_eq_self fun c hc => isBlank_of_isAlphanum (Asn.isAlphanum_of_mem_text hc)
  rw [read, h, splitLimit_text]
  dsimp only
  rw [hnumber, Asn.read_text]
  rfl

theorem trimmed_text (p : AspaProvider) : trimmed p.text.toList = p.text.toList := by
  refine trimmed_eq_self fun c hc => ?_
  rcases isAlphanum_of_mem_text hc with h | rfl | rfl
  · exact isBlank_of_isAlphanum h
  · decide
  · decide

end AspaProvider

/-! ### Entries -/

namespace AspaEntry

variable {e : AspaEntry} {c : Char} {providers : List AspaProvider}

/-- The written form of providers. -/
def providersText (providers : List AspaProvider) : String :=
  if providers.isEmpty then "<none>" else join ", " (providers.map AspaProvider.text)

theorem toList_text (e : AspaEntry) : e.text.toList =
    (e.customer.text.toList ++ [' ']) ++
      '=' :: '>' :: ' ' :: (providersText e.providers).toList := by
  have harrow : " => ".toList = [' ', '=', '>', ' '] := rfl
  rw [text, aspaText, String.toList_append, String.toList_append, harrow, List.append_assoc,
    List.append_assoc]
  rfl

theorem mem_providersText (h : c ∈ (providersText providers).toList) :
    c.isAlphanum = true ∨ c ∈ "()<>, ".toList := by
  rw [providersText] at h
  split at h
  · have hnone : ∀ c ∈ "<none>".toList, c.isAlphanum = true ∨ c ∈ "()<>, ".toList := by simp
    exact hnone c h
  · have hsep : ∀ c ∈ ", ".toList, c ∈ "()<>, ".toList := by simp
    rw [toList_join] at h
    rcases mem_intercalate h with h | ⟨t, ht, h⟩
    · exact .inr (hsep c h)
    · rw [List.map_map, List.mem_map] at ht
      obtain ⟨p, -, rfl⟩ := ht
      rcases AspaProvider.isAlphanum_of_mem_text h with h | rfl | rfl
      · exact .inl h
      · exact .inr (by decide)
      · exact .inr (by decide)

/-- **The providers are read back**, repetitions included. -/
theorem readProviders_providersText (providers : List AspaProvider) :
    readProviders (' ' :: (providersText providers).toList) = .ok providers := by
  cases providers with
  | nil => rfl
  | cons p more =>
    have hsep : ", ".toList = [',', ' '] := rfl
    have htext : (providersText (p :: more)).toList =
        [','].intercalate (p.text.toList :: (more.map fun q => ' ' :: q.text.toList)) := by
      rw [providersText, if_neg (by simp), toList_join, hsep, List.map_map, List.map_cons,
        ResourceSet.intercalate_blank, List.map_map]
      rfl
    -- the first piece begins with the blank after the arrow, the others with those after the commas
    have hpieces : piecesAt ',' (' ' :: (providersText (p :: more)).toList) =
        (p :: more).map fun q => ' ' :: q.text.toList := by
      have hjoin : ' ' :: (providersText (p :: more)).toList =
          [','].intercalate ((p :: more).map fun q => ' ' :: q.text.toList) := by
        rw [htext, List.map_cons]
        cases more <;> simp
      rw [hjoin, piecesAt_intercalate _ (by simp)]
      rw [List.forall_mem_map]
      intro q _ hcomma
      rcases List.mem_cons.mp hcomma with h | h
      · exact absurd h (by decide)
      · exact absurd (AspaProvider.isAlphanum_of_mem_text h) (by decide)
    have hsome : trimmed (' ' :: (providersText (p :: more)).toList) ≠ "<none>".toList := by
      have hfirst : ∃ rest, (providersText (p :: more)).toList = 'A' :: rest := by
        rw [htext, AspaProvider.toList_text, Asn.toList_text]
        cases more <;> simp
      obtain ⟨rest, hrest⟩ := hfirst
      obtain ⟨kept, hkept⟩ := exists_trimmed_cons (c := 'A') (by decide) rest
      rw [trimmed_cons_of_isBlank (by decide), hrest, hkept]
      exact fun h => absurd (List.cons.inj h).1 (by decide)
    rw [readProviders, if_neg hsome, hpieces, Reading.mapM_eq_ok_iff, List.forall₂_map_left_iff,
      List.forall₂_same]
    intro q _
    refine AspaProvider.read_of_trimmed ?_
    rw [trimmed_cons_of_isBlank (by decide), AspaProvider.trimmed_text]

/-- **Entries are read back** from their text. -/
theorem read_text (e : AspaEntry) : read e.text.toList = .ok e := by
  have hcustomer : '=' ∉ e.customer.text.toList ++ [' '] := by
    rw [List.mem_append, not_or]
    exact ⟨fun h => absurd (Asn.isAlphanum_of_mem_text h) (by decide), by decide⟩
  have hproviders : '=' ∉ ' ' :: (providersText e.providers).toList := by
    rw [List.mem_cons, not_or]
    exact ⟨by decide, fun h => absurd (mem_providersText h) (by decide)⟩
  have htrimmed : trimmed (e.customer.text.toList ++ [' ']) = e.customer.text.toList := by
    rw [trimmed_concat_of_isBlank (by decide)]
    exact trimmed_eq_self fun c hc => isBlank_of_isAlphanum (Asn.isAlphanum_of_mem_text hc)
  rw [read, toList_text, piecesAtPair_append hcustomer, piecesAtPair_eq_singleton hproviders]
  dsimp only
  rw [htrimmed, Asn.read_text, readProviders_providersText]
  rfl

/-- **The characters of entries**: letters, digits and the signs between them. -/
theorem mem_text (h : c ∈ e.text.toList) : c.isAlphanum = true ∨ c ∈ "()<>=, ".toList := by
  have hsigns : ∀ c ∈ "()<>, ".toList, c ∈ "()<>=, ".toList := by simp
  rw [toList_text] at h
  simp only [List.mem_append, List.mem_cons, List.not_mem_nil, or_false] at h
  rcases h with (h | rfl) | rfl | rfl | rfl | h
  · exact .inl (Asn.isAlphanum_of_mem_text h)
  · exact .inr (by decide)
  · exact .inr (by decide)
  · exact .inr (by decide)
  · exact .inr (by decide)
  · exact (mem_providersText h).imp_right (hsigns c)

/-- An entry is written on one line. -/
theorem isLine_text (e : AspaEntry) :
    e.text.toList ≠ [] ∧ '\n' ∉ e.text.toList ∧ '\r' ∉ e.text.toList := by
  refine ⟨?_, fun h => absurd (mem_text h) (by decide), fun h => absurd (mem_text h) (by decide)⟩
  rw [toList_text]
  simp

end AspaEntry

namespace AspaConfiguration

variable {m n : AspaConfiguration}

/-- The entries of a configuration, by customer. -/
def toEntries (m : AspaConfiguration) : List AspaEntry :=
  m.entries.map fun e => ⟨e.1, e.2.toList⟩

/-- The configuration whose entries are the lines of a text. -/
def ofText (s : String) : Reading AspaTextError (Except AspaRepetition AspaConfiguration) := do
  return ofEntries (← (Text.lines s.toList).mapM AspaEntry.read)

theorem lines_eq (m : AspaConfiguration) : m.lines = m.toEntries.map AspaEntry.text := by
  rw [lines, toEntries, List.map_map]
  rfl

/-- **A configuration is made again** from its entries. -/
theorem ofEntries_toEntries (m : AspaConfiguration) : ofEntries m.toEntries = .ok m := by
  have hcustomers : m.toEntries.map AspaEntry.customer = m.keys := List.map_map
  refine ofEntries_eq_ok_iff.mpr ⟨⟨hcustomers ▸ OrdMap.nodup_keys m, fun e he => ?_⟩,
    fun customer providers => ?_⟩
  · obtain ⟨d, -, rfl⟩ := List.mem_map.mp he
    have hproviders : AspaEntry.providerAsns ⟨d.1, d.2.toList⟩ = d.2.keys := List.map_map
    exact hproviders ▸ OrdMap.nodup_keys d.2
  · rw [OrdMap.find?_eq_some_iff]
    constructor
    · exact fun h => ⟨_, List.mem_map_of_mem h, rfl, providers.comprises_toList⟩
    · rintro ⟨e, he, rfl, hproviders⟩
      obtain ⟨d, hd, rfl⟩ := List.mem_map.mp he
      obtain rfl := hproviders.eq d.2.comprises_toList
      exact hd

/-- **A configuration is read back** from its text, line by line. -/
theorem ofText_text (m : AspaConfiguration) : ofText m.text = .ok (.ok m) := by
  have hlines : Text.lines m.text.toList = m.toEntries.map fun e => e.text.toList := by
    rw [text, lines_eq, lines_join, List.map_map]
    · rfl
    · exact List.forall_mem_map.mpr fun e _ => AspaEntry.isLine_text e
  have hread : (Text.lines m.text.toList).mapM AspaEntry.read = .ok m.toEntries := by
    rw [hlines, Reading.mapM_eq_ok_iff, List.forall₂_map_left_iff, List.forall₂_same]
    exact fun e _ => AspaEntry.read_text e
  rw [ofText, hread]
  exact congrArg Except.ok (ofEntries_toEntries m)

/-- **No two configurations have the same text.** -/
theorem text_inj (h : m.text = n.text) : m = n := by
  have hread : ofText m.text = .ok (.ok n) := h ▸ ofText_text n
  rw [ofText_text] at hread
  exact Except.ok.inj (Except.ok.inj hread)

theorem text_eq_empty_iff : m.text = "" ↔ m = OrdMap.empty :=
  ⟨fun h => text_inj h, fun h => h ▸ rfl⟩

/-- Equal tags mean equal configurations, up to a collision of their texts. -/
theorem entityTag_eq_iff : m.entityTag = n.entityTag ↔ m = n ∨ Sha256.Collision m.text n.text := by
  constructor
  · intro h
    by_cases heq : m = n
    · exact .inl heq
    · exact .inr ⟨fun htext => heq (text_inj htext), h⟩
  · rintro (rfl | h)
    · rfl
    · exact h.2

end AspaConfiguration

/-! ### Updates -/

namespace Handlers

variable {ca : CertificateAuthority} {tag : String} {entries : List AspaEntry}

theorem checkEntries_ne_mismatch (certified : ResourceSet) (entries : List AspaEntry) :
    checkEntries certified entries ≠ .error .entityTagDoesNotMatch := by
  intro h
  rw [checkEntries] at h
  split at h
  · exact nomatch h
  · split at h
    · exact nomatch h
    · split at h <;> exact nomatch h

/-- **A tag is refused** if it is not the one of the configuration that is there, and by no other
check. -/
theorem newConfiguration_eq_mismatch_iff :
    newConfiguration ca (some tag) entries = .error .entityTagDoesNotMatch ↔
      tag ≠ ca.aspa.entityTag := by
  rw [newConfiguration]
  split
  · next hne => exact iff_of_true rfl hne
  · next heq =>
    refine iff_of_false (fun h => ?_) heq
    split at h
    · exact nomatch h
    · split at h
      · next e he =>
        obtain rfl := Except.error.inj h
        exact checkEntries_ne_mismatch _ _ he
      · split at h <;> exact nomatch h

end Handlers

/-- **The text of a configuration identifies it, and so does its tag.** Entries are read back from
their text, whatever they repeat; configurations are read back line by line, the empty one from the
empty text; so equal texts mean equal configurations. Tags are hashes of texts. Two configurations
with the same tag are equal, or their texts are a collision of the hash; and an update whose tag was
taken from a configuration is refused for its tag exactly if that is not the configuration it would
change, again up to a collision. -/
theorem AspaConfiguration.identified_by_tag :
    (∀ e : AspaEntry, AspaEntry.read e.text.toList = .ok e) ∧
    (∀ m : AspaConfiguration, ofText m.text = .ok (.ok m)) ∧
    (∀ m : AspaConfiguration, m.text = "" ↔ m = OrdMap.empty) ∧
    Function.Injective text ∧
    (∀ m n : AspaConfiguration,
      m.entityTag = n.entityTag ↔ m = n ∨ Sha256.Collision m.text n.text) ∧
    ∀ (seen : AspaConfiguration) (ca : CertificateAuthority) (entries : List AspaEntry),
      Handlers.newConfiguration ca (some seen.entityTag) entries ≠ .error .entityTagDoesNotMatch ↔
        seen = ca.aspa ∨ Sha256.Collision seen.text ca.aspa.text := by
  refine ⟨AspaEntry.read_text, ofText_text, fun m => text_eq_empty_iff, fun m n => text_inj,
    fun m n => entityTag_eq_iff, fun seen ca entries => ?_⟩
  rw [Ne, Handlers.newConfiguration_eq_mismatch_iff, not_not, entityTag_eq_iff]

end RpkiAuthority
