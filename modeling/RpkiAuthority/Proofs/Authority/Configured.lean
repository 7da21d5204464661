import RpkiAuthority.Proofs.Authority.Built

/-!
# What an update of ASPA configuration asks for, and gets

An update is allowed (`CertificateAuthority.Allows`) if it names the tag of the configuration that
is there, repeats nothing, and is about customers that are certified, with providers that are
neither the customer itself nor reserved for private use. These conditions are checked one after the
other, and the first one that is not met gives the error (`CertificateAuthority.Refuses`). An update
that is allowed asks for exactly what its entries say. If that is what the configuration says
already there is nothing to do, and otherwise it becomes the configuration
(`CertificateAuthority.configured_newConfiguration`).

Whether customers are certified is found out by taking all certified AS numbers away from theirs.
The customers are different, so they are in normal form, and the certified blocks ascend; that they
may overlap does not matter. So what is left are exactly the customers that no certificate holds
(`CertificateAuthority.missing_difference`).
-/

namespace RpkiAuthority

open AspaConfiguration

/-! ### AS numbers for private use -/

/-- **The AS numbers for private use.** -/
def Asn.IsPrivate (a : Asn) : Prop :=
  64512 ≤ a.toNat ∧ a.toNat ≤ 65534 ∨ 4200000000 ≤ a.toNat ∧ a.toNat ≤ 4294967294

instance (a : Asn) : Decidable a.IsPrivate := inferInstanceAs (Decidable (_ ∨ _))

theorem ResourceSet.containsAsn_privateAsns_iff (a : Asn) :
    privateAsns.containsAsn a = true ↔ a.IsPrivate := by
  rw [CertificateAuthority.containsAsn_privateAsns, HoldsAsn, privateAsns, Block.holds_cons,
    Block.holds_cons, or_iff_left (Block.not_holds_nil _)]
  exact Iff.rfl

/-- The providers for private use, in the order in which they are submitted. -/
def AspaConfiguration.privateOf (entries : List AspaEntry) : List Asn :=
  (entries.flatMap AspaEntry.providerAsns).filter fun a => a.IsPrivate

namespace CertificateAuthority

variable {ca : CertificateAuthority} {ifMatch : Option String} {entries : List AspaEntry}

/-! ### Updates -/

/-- **An update is allowed.** -/
structure Allows (ca : CertificateAuthority) (ifMatch : Option String) (entries : List AspaEntry) :
    Prop where
  tag : ifMatch = some ca.aspa.entityTag
  distinct : Distinct entries
  held : ∀ e ∈ entries, ca.Certifies e.customer
  others : ∀ e ∈ entries, e.customer ∉ e.providerAsns
  assigned : ∀ e ∈ entries, ∀ a ∈ e.providerAsns, ¬a.IsPrivate

/-- **The customers that are missing** from all certificates, as resources. -/
structure Missing (ca : CertificateAuthority) (entries : List AspaEntry) (s : ResourceSet) :
    Prop where
  normal : s.Normal
  holds : ∀ n, Block.Holds s.asns n ↔
    ∃ e ∈ entries, e.customer.toNat = n ∧ ¬ca.Certifies e.customer
  ipv4 : s.ipv4 = []
  ipv6 : s.ipv6 = []

/-- **The error for an update** is that of the first condition that is not met. -/
inductive Refuses (ca : CertificateAuthority) (ifMatch : Option String) (entries : List AspaEntry) :
    CommandError → Prop where
  | noTag (htag : ifMatch = none) : Refuses ca ifMatch entries .preconditionRequired
  | otherTag {tag : String} (htag : ifMatch = some tag) (hne : tag ≠ ca.aspa.entityTag) :
    Refuses ca ifMatch entries .entityTagDoesNotMatch
  | repeated {r : AspaRepetition} (htag : ifMatch = some ca.aspa.entityTag)
    (hrepeats : Repeats entries r) :
    Refuses ca ifMatch entries
      (.duplicateResource ("duplicate ASN " ++ r.asn.text ++ " in ASPA configuration"))
  | notHeld {missing : ResourceSet} (htag : ifMatch = some ca.aspa.entityTag)
    (hdistinct : Distinct entries) (hsome : ∃ e ∈ entries, ¬ca.Certifies e.customer)
    (hmissing : ca.Missing entries missing) : Refuses ca ifMatch entries (.notHolder missing)
  | ownProvider {before after : List AspaEntry} {e : AspaEntry}
    (htag : ifMatch = some ca.aspa.entityTag) (hdistinct : Distinct entries)
    (hheld : ∀ e ∈ entries, ca.Certifies e.customer) (heq : entries = before ++ e :: after)
    (hbefore : ∀ b ∈ before, b.customer ∉ b.providerAsns) (hown : e.customer ∈ e.providerAsns) :
    Refuses ca ifMatch entries
      (.duplicateResource ("customer " ++ e.customer.text ++ " appears in provider set [" ++
        Text.join ", " (e.providerAsns.map Asn.text) ++ "]"))
  | privateUse (htag : ifMatch = some ca.aspa.entityTag) (hdistinct : Distinct entries)
    (hheld : ∀ e ∈ entries, ca.Certifies e.customer)
    (hothers : ∀ e ∈ entries, e.customer ∉ e.providerAsns)
    (hsome : ∃ e ∈ entries, ∃ a ∈ e.providerAsns, a.IsPrivate) :
    Refuses ca ifMatch entries (.privateAsnsUsed (privateOf entries))

/-- **What comes of an update**: the error, nothing to do, or the configuration that it asks for. -/
inductive Configured (ca : CertificateAuthority) (ifMatch : Option String)
    (entries : List AspaEntry) : Except CommandError AspaConfiguration → Prop where
  | refused {err : CommandError} (h : ca.Refuses ifMatch entries err) :
    Configured ca ifMatch entries (.error err)
  | unchanged (h : ca.Allows ifMatch entries) (hsame : ca.aspa.Comprises entries) :
    Configured ca ifMatch entries (.error .noEffect)
  | updated {updated : AspaConfiguration} (h : ca.Allows ifMatch entries)
    (hdiffers : ¬ca.aspa.Comprises entries) (hupdated : updated.Comprises entries) :
    Configured ca ifMatch entries (.ok updated)

/-! ### The checks -/

/-- No update that is allowed is refused. -/
theorem Refuses.not_allows {err : CommandError} (h : ca.Refuses ifMatch entries err) :
    ¬ca.Allows ifMatch entries := by
  intro hallows
  cases h with
  | noTag htag => exact nomatch htag.symm.trans hallows.tag
  | otherTag htag hne => exact hne (Option.some.inj (htag.symm.trans hallows.tag))
  | repeated _ hrepeats => exact hrepeats.not_distinct hallows.distinct
  | notHeld _ _ hsome =>
    obtain ⟨e, he, hnot⟩ := hsome
    exact hnot (hallows.held e he)
  | ownProvider _ _ _ heq _ hown => exact hallows.others _ (heq ▸ by simp) hown
  | privateUse _ _ _ _ hsome =>
    obtain ⟨e, he, a, ha, hprivate⟩ := hsome
    exact hallows.assigned e he a ha hprivate

theorem Refuses.ne_noEffect {err : CommandError} (h : ca.Refuses ifMatch entries err) :
    err ≠ .noEffect := by
  cases h <;> exact nofun

/-- **What is left of the customers** is missing from all certificates. -/
theorem missing_difference (hord : ∀ certificate ∈ ca.incoming.values, certificate.Ordered)
    (hdistinct : Distinct entries) :
    ca.Missing entries
      ((ResourceSet.ofAsns (entries.map AspaEntry.customer)).difference ca.certified) := by
  obtain ⟨hordered, hascending, hcertified⟩ := certified_asns hord
  have hcustomers : (ResourceSet.ofAsns (entries.map AspaEntry.customer)).Normal :=
    ResourceSet.normal_collected_of_apart (ResourceSet.ordered_singles _)
      (ResourceSet.apart_singles hdistinct.1)
  have hnone : ∀ l, Block.difference [] l = [] := fun l => by rw [Block.difference]
  have hipv4 : ((ResourceSet.ofAsns (entries.map AspaEntry.customer)).difference
      ca.certified).ipv4 = [] := hnone _
  have hipv6 : ((ResourceSet.ofAsns (entries.map AspaEntry.customer)).difference
      ca.certified).ipv6 = [] := hnone _
  refine ⟨⟨Block.normal_difference hcustomers.1 hordered hascending, ?_, ?_⟩, fun n => ?_, hipv4,
    hipv6⟩
  · exact hipv4 ▸ Block.normal_nil
  · exact hipv6 ▸ Block.normal_nil
  · refine (Block.holds_difference hcustomers.1 hordered hascending).trans ?_
    rw [ResourceSet.holds_asns_ofAsns, hcertified]
    constructor
    · rintro ⟨⟨a, ha, rfl⟩, hnot⟩
      obtain ⟨e, he, rfl⟩ := List.mem_map.mp ha
      exact ⟨e, he, rfl, hnot⟩
    · rintro ⟨e, he, rfl, hnot⟩
      exact ⟨⟨e.customer, List.mem_map_of_mem he, rfl⟩, hnot⟩

/-- Nothing is missing if all customers are certified. -/
theorem Missing.isEmpty_iff {missing : ResourceSet} (h : ca.Missing entries missing) :
    missing.isEmpty = true ↔ ∀ e ∈ entries, ca.Certifies e.customer := by
  rw [ResourceSet.isEmpty, h.ipv4, h.ipv6, List.isEmpty_nil, Bool.and_true, Bool.and_true,
    List.isEmpty_iff]
  constructor
  · intro hnil e he
    by_contra hnot
    have hholds := (h.holds _).mpr ⟨e, he, rfl, hnot⟩
    rw [hnil] at hholds
    exact Block.not_holds_nil _ hholds
  · intro hheld
    refine h.normal.1.eq_nil fun n hn => ?_
    obtain ⟨e, he, -, hnot⟩ := (h.holds n).mp hn
    exact hnot (hheld e he)

theorem isOwnProvider_iff {e : AspaEntry} :
    Handlers.isOwnProvider e = true ↔ e.customer ∈ e.providerAsns := by
  rw [Handlers.isOwnProvider, List.any_eq_true, AspaEntry.providerAsns, List.mem_map]
  simp

theorem privateProviders_eq (entries : List AspaEntry) :
    Handlers.privateProviders entries = privateOf entries :=
  List.filter_congr fun a _ => Bool.eq_iff_iff.mpr <|
    (ResourceSet.containsAsn_privateAsns_iff a).trans decide_eq_true_iff.symm

theorem privateOf_eq_nil_iff :
    privateOf entries = [] ↔ ∀ e ∈ entries, ∀ a ∈ e.providerAsns, ¬a.IsPrivate := by
  rw [privateOf, List.filter_eq_nil_iff]
  simp only [List.mem_flatMap, decide_eq_true_eq]
  exact ⟨fun h e he a ha => h a ⟨e, he, ha⟩, fun h a ⟨e, he, ha⟩ => h e he a ha⟩

/-- **The checks of the entries**, one after the other. -/
theorem checkEntries_cases (hord : ∀ certificate ∈ ca.incoming.values, certificate.Ordered)
    (htag : ifMatch = some ca.aspa.entityTag) (hdistinct : Distinct entries) :
    (∃ err, Handlers.checkEntries ca.certified entries = .error err ∧
        ca.Refuses ifMatch entries err) ∨
      Handlers.checkEntries ca.certified entries = .ok () ∧ ca.Allows ifMatch entries := by
  have hmissing := missing_difference hord hdistinct
  rw [Handlers.checkEntries]
  generalize (ResourceSet.ofAsns (entries.map AspaEntry.customer)).difference ca.certified =
    missing at hmissing
  by_cases hheld : ∀ e ∈ entries, ca.Certifies e.customer
  · rw [hmissing.isEmpty_iff.mpr hheld, if_neg (by simp), privateProviders_eq]
    cases hfind : entries.find? Handlers.isOwnProvider with
    | some e =>
      obtain ⟨hown, before, after, heq, hbefore⟩ := List.find?_eq_some_iff_append.mp hfind
      refine .inl ⟨_, rfl, ?_⟩
      have htexts : e.providers.map (fun p => p.asn.text) = e.providerAsns.map Asn.text := by
        rw [AspaEntry.providerAsns, List.map_map]
        rfl
      rw [Handlers.ownProvider, htexts]
      refine .ownProvider htag hdistinct hheld heq (fun b hb hmem => ?_) (isOwnProvider_iff.mp hown)
      have hnot := hbefore b hb
      rw [isOwnProvider_iff.mpr hmem] at hnot
      exact absurd hnot Bool.false_ne_true
    | none =>
      have hothers : ∀ e ∈ entries, e.customer ∉ e.providerAsns := fun e he hmem =>
        List.find?_eq_none.mp hfind e he (isOwnProvider_iff.mpr hmem)
      dsimp only
      by_cases hprivate : privateOf entries = []
      · rw [if_pos (List.isEmpty_iff.mpr hprivate)]
        exact .inr ⟨rfl, htag, hdistinct, hheld, hothers, privateOf_eq_nil_iff.mp hprivate⟩
      · rw [if_neg (by simpa using hprivate)]
        refine .inl ⟨_, rfl, .privateUse htag hdistinct hheld hothers ?_⟩
        by_contra hnone
        exact hprivate (privateOf_eq_nil_iff.mpr fun e he a ha h => hnone ⟨e, he, a, ha, h⟩)
  · have hsome : missing.isEmpty = false :=
      Bool.eq_false_iff.mpr fun hempty => hheld (hmissing.isEmpty_iff.mp hempty)
    rw [hsome, if_pos (by simp)]
    refine .inl ⟨_, rfl, .notHeld htag hdistinct ?_ hmissing⟩
    by_contra hnone
    exact hheld fun e he => by_contra fun hnot => hnone ⟨e, he, hnot⟩

/-- **What comes of an update** is as said, where certificates are lists of blocks with their ends
in order. -/
theorem configured_newConfiguration
    (hord : ∀ certificate ∈ ca.incoming.values, certificate.Ordered) :
    ca.Configured ifMatch entries (Handlers.newConfiguration ca ifMatch entries) := by
  cases ifMatch with
  | none => exact .refused (.noTag rfl)
  | some tag =>
    rw [Handlers.newConfiguration]
    by_cases htag : tag = ca.aspa.entityTag
    · rw [if_neg (not_not_intro htag)]
      subst htag
      cases hentries : ofEntries entries with
      | error r => exact .refused (.repeated rfl (repeats_of_ofEntries hentries))
      | ok updated =>
        obtain ⟨hdistinct, hcomprises⟩ := ofEntries_eq_ok_iff.mp hentries
        rcases checkEntries_cases hord rfl hdistinct with
          ⟨err, hcheck, hrefuses⟩ | ⟨hcheck, hallows⟩
        · rw [hcheck]
          exact .refused hrefuses
        · rw [hcheck]
          dsimp only
          split
          · next hsame => exact .unchanged hallows (hsame ▸ hcomprises)
          · next hdiffers =>
            exact .updated hallows (fun hsame => hdiffers (hcomprises.eq hsame)) hcomprises
    · rw [if_pos htag]
      exact .refused (.otherTag rfl htag)

end CertificateAuthority

end RpkiAuthority
