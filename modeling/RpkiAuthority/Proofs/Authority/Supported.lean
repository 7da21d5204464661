import RpkiAuthority.Proofs.Aspa.Submitted
import RpkiAuthority.Proofs.Engine.Effect
import RpkiAuthority.Proofs.Resource.Collected

/-!
# Configuration that the certificates support

An authority may only make statements about customers it holds. Its ASPA configuration is
**supported** (`CertificateAuthority.Supported`) if every customer is in one of the certificates, no
customer is its own provider, and no provider is reserved for private use.

Two things keep it so. An update is checked against all certificates together, by a walk that trusts
block lists to be in normal form; the union of certificates is not, but the walk errs on the side of
refusing (`CertificateAuthority.supported_of_newConfiguration`). And when certificates change, the
maintaining listeners drop the entries for customers that are no longer held
(`CertificateAuthority.Supported.maintained`). No other command touches either side
(`Command.effect_supported`).
-/

namespace RpkiAuthority

namespace CertificateAuthority

/-! ### Certified resources -/

/-- The union of all certificates is a list of ascending blocks, which may overlap. It holds the
numbers that one of the certificates holds. -/
theorem certified_asns {ca : CertificateAuthority}
    (h : ∀ resources ∈ ca.incoming.values, resources.Ordered) :
    Block.Ordered ca.certified.asns ∧ Block.Ascending ca.certified.asns ∧
      ∀ n, Block.Holds ca.certified.asns n ↔
        ∃ resources ∈ ca.incoming.values, Block.Holds resources.asns n := by
  have hsets : ∀ r ∈ ca.incoming.values, Block.Ordered r.asns := fun r hr => (h r hr).1
  obtain ⟨hord, hasc, hholds⟩ := ResourceSet.foldl_union_spec ResourceSet.asns
    (fun _ _ => rfl) hsets (s := ResourceSet.empty) (fun b hb => absurd hb List.not_mem_nil) .nil
  exact ⟨hord, hasc, fun n => (hholds n).trans (or_iff_right (Block.not_holds_nil _))⟩

/-- **What all certificates together hold** is what one of them holds. -/
theorem certified_spec {ca : CertificateAuthority}
    (h : ∀ resources ∈ ca.incoming.values, resources.Ordered) :
    Block.Ascending ca.certified.asns ∧
      ∀ a, ca.certified.HoldsAsn a ↔ ∃ resources ∈ ca.incoming.values, resources.HoldsAsn a :=
  ⟨(certified_asns h).2.1, fun a => (certified_asns h).2.2 a.toNat⟩

/-- The walk through the certified resources finds the AS numbers of all certificates. -/
theorem containsAsn_certified {ca : CertificateAuthority}
    (h : ∀ resources ∈ ca.incoming.values, resources.Ordered) (a : Asn) :
    ca.certified.containsAsn a = true ↔ ∃ resources ∈ ca.incoming.values, resources.HoldsAsn a :=
  (ResourceSet.containsAsn_iff (certified_spec h).1 a).trans ((certified_spec h).2 a)

/-! ### Supported configuration -/

/-- **A supported configuration**: the customers are held, and the providers are other AS numbers
that are not reserved for private use. The certificates are lists of blocks with their ends in
order. -/
structure Supported (ca : CertificateAuthority) : Prop where
  ordered : ∀ resources ∈ ca.incoming.values, resources.Ordered
  held : ∀ {customer providers}, ca.aspa.find? customer = some providers →
    ∃ resources ∈ ca.incoming.values, resources.HoldsAsn customer
  others : ∀ {customer providers}, ca.aspa.find? customer = some providers →
    customer ∉ providers.keys
  assigned : ∀ {customer providers}, ca.aspa.find? customer = some providers →
    ∀ a ∈ providers.keys, ¬ResourceSet.privateAsns.HoldsAsn a

theorem supported_create (id : AggregateId) (name : String) (uuid : Uuid) :
    (create id name uuid).Supported where
  ordered _ h := absurd h List.not_mem_nil
  held h := absurd h.symm (Option.some_ne_none _)
  others h := absurd h.symm (Option.some_ne_none _)
  assigned h := absurd h.symm (Option.some_ne_none _)

/-- Only the certificates and the configuration matter. -/
theorem Supported.congr {ca ca' : CertificateAuthority} (h : ca.Supported)
    (hincoming : ca'.incoming = ca.incoming) (haspa : ca'.aspa = ca.aspa) : ca'.Supported where
  ordered := hincoming ▸ h.ordered
  held := by rw [hincoming, haspa]; exact h.held
  others := haspa ▸ h.others
  assigned := haspa ▸ h.assigned

/-! ### Updates -/

/-- Entries that pass the check are about customers that are held, and providers that may be. -/
theorem holds_of_checkEntries {certified : ResourceSet} {entries : List AspaEntry}
    (h : Handlers.checkEntries certified entries = .ok ()) {e : AspaEntry} (he : e ∈ entries) :
    certified.HoldsAsn e.customer ∧ e.customer ∉ e.providers.map AspaProvider.asn ∧
      ∀ a ∈ e.providers.map AspaProvider.asn, ResourceSet.privateAsns.containsAsn a = false := by
  unfold Handlers.checkEntries at h
  dsimp only at h
  split at h
  · exact absurd h (by simp)
  · next hmissing =>
    split at h
    · exact absurd h (by simp)
    · next hown =>
      split at h
      · next hprivate =>
        refine ⟨?_, ?_, ?_⟩
        · refine ResourceSet.holds_of_difference_isEmpty (by simpa using hmissing) ?_
          exact (ResourceSet.holds_ofAsns e.customer).mpr (List.mem_map_of_mem he)
        · intro hin
          obtain ⟨p, hp, hpc⟩ := List.mem_map.mp hin
          refine List.find?_eq_none.mp hown e he (List.any_eq_true.mpr ⟨p, hp, ?_⟩)
          simp [hpc]
        · intro a ha
          rw [Handlers.privateProviders, List.isEmpty_iff, List.filter_eq_nil_iff] at hprivate
          have hmem : a ∈ entries.flatMap fun e => e.providers.map AspaProvider.asn :=
            List.mem_flatMap.mpr ⟨e, he, ha⟩
          simpa using hprivate a hmem
      · exact absurd h (by simp)

/-- An update that is allowed passed the check. -/
theorem newConfiguration_eq_ok {ca : CertificateAuthority} {ifMatch : Option String}
    {entries : List AspaEntry} {updated : AspaConfiguration}
    (h : Handlers.newConfiguration ca ifMatch entries = .ok updated) :
    AspaConfiguration.ofEntries entries = .ok updated ∧
      Handlers.checkEntries ca.certified entries = .ok () := by
  unfold Handlers.newConfiguration at h
  split at h
  · exact absurd h (by simp)
  · split at h
    · exact absurd h (by simp)
    · split at h
      · exact absurd h (by simp)
      · next config hconfig =>
        split at h
        · exact absurd h (by simp)
        · next hcheck =>
          split at h
          · exact absurd h (by simp)
          · obtain rfl := Except.ok.inj h
            exact ⟨hconfig, hcheck⟩

/-- The AS numbers for private use are listed in order, so the walk finds them all. -/
theorem containsAsn_privateAsns (a : Asn) :
    ResourceSet.privateAsns.containsAsn a = true ↔ ResourceSet.privateAsns.HoldsAsn a :=
  ResourceSet.containsAsn_iff (by simp [ResourceSet.privateAsns, Block.Ascending]) a

/-- **An update that is allowed is supported.** -/
theorem supported_of_newConfiguration {ca : CertificateAuthority}
    (hord : ∀ resources ∈ ca.incoming.values, resources.Ordered) {ifMatch : Option String}
    {entries : List AspaEntry} {updated : AspaConfiguration}
    (h : Handlers.newConfiguration ca ifMatch entries = .ok updated) :
    (ca.setAspa updated).markUpdated.Supported := by
  obtain ⟨hentries, hcheck⟩ := newConfiguration_eq_ok h
  -- the configuration has nothing but what the entries say
  have hsubmitted := (AspaConfiguration.ofEntries_eq_ok_iff.mp hentries).2
  refine ⟨hord, fun hfind => ?_, fun hfind => ?_, fun hfind a ha => ?_⟩
  · obtain ⟨e, he, rfl, -⟩ := (hsubmitted _ _).mp hfind
    exact ((certified_spec hord).2 _).mp (holds_of_checkEntries hcheck he).1
  · obtain ⟨e, he, rfl, hproviders⟩ := (hsubmitted _ _).mp hfind
    rw [hproviders.mem_keys_iff]
    exact (holds_of_checkEntries hcheck he).2.1
  · obtain ⟨e, he, rfl, hproviders⟩ := (hsubmitted _ _).mp hfind
    rw [hproviders.mem_keys_iff] at ha
    rw [← containsAsn_privateAsns, (holds_of_checkEntries hcheck he).2.2 a ha]
    exact Bool.false_ne_true

/-! ### Changes of certificates -/

/-- A new certificate does not spoil the others. -/
theorem ordered_setIncoming {ca : CertificateAuthority}
    (h : ∀ r ∈ ca.incoming.values, r.Ordered) {key : String} {resources : ResourceSet}
    (hr : resources.Ordered) : ∀ r ∈ (ca.setIncoming key resources).incoming.values, r.Ordered := by
  intro r hmem
  obtain ⟨k, hk⟩ := OrdMap.mem_values_iff.mp hmem
  by_cases hkey : k = key
  · subst hkey
    rw [setIncoming, OrdMap.find?_insert_self] at hk
    exact Option.some.inj hk ▸ hr
  · rw [setIncoming, OrdMap.find?_insert_of_ne _ hkey] at hk
    exact h r (OrdMap.mem_values_iff.mpr ⟨k, hk⟩)

theorem ordered_removeIncoming {ca : CertificateAuthority}
    (h : ∀ r ∈ ca.incoming.values, r.Ordered) (key : String) :
    ∀ r ∈ (ca.removeIncoming key).incoming.values, r.Ordered := by
  intro r hmem
  obtain ⟨k, hk⟩ := OrdMap.mem_values_iff.mp hmem
  by_cases hkey : k = key
  · subst hkey
    rw [removeIncoming, OrdMap.find?_erase_self] at hk
    exact absurd hk.symm (Option.some_ne_none _)
  · rw [removeIncoming, OrdMap.find?_erase_of_ne _ hkey] at hk
    exact h r (OrdMap.mem_values_iff.mpr ⟨k, hk⟩)

/-- Entries that do not lapse are about customers that are held. -/
theorem find?_dropLapsedEntries {ca : CertificateAuthority} {customer : Asn}
    {providers : AspaProviders} (h : ca.dropLapsedEntries.aspa.find? customer = some providers) :
    ca.aspa.find? customer = some providers ∧ ca.certified.containsAsn customer = true := by
  rw [dropLapsedEntries] at h
  split at h
  · next hempty =>
    refine ⟨h, ?_⟩
    -- nothing lapses, so the authority was left alone and every customer is held
    rw [lapsedEntries, List.isEmpty_iff, AspaConfiguration.splitHeld, List.filter_eq_nil_iff]
      at hempty
    simpa using hempty _ (OrdMap.find?_eq_some_iff.mp h)
  · have hfilter : (ca.aspa.filter fun customer _ => ca.certified.containsAsn customer).find?
        customer = some providers := h
    rw [OrdMap.find?_filter] at hfilter
    cases hfind : ca.aspa.find? customer with
    | none => rw [hfind] at hfilter; exact absurd hfilter (by simp)
    | some found => simpa [hfind, Option.filter_eq_some_iff, and_comm] using hfilter

theorem dropLapsedEntries_incoming (ca : CertificateAuthority) :
    ca.dropLapsedEntries.incoming = ca.incoming := by
  rw [dropLapsedEntries]
  split <;> rfl

theorem dropLapsedRoutes_incoming (ca : CertificateAuthority) :
    ca.dropLapsedRoutes.incoming = ca.incoming := by
  rw [dropLapsedRoutes]
  split <;> rfl

theorem dropLapsedRoutes_aspa (ca : CertificateAuthority) :
    ca.dropLapsedRoutes.aspa = ca.aspa := by
  rw [dropLapsedRoutes]
  split <;> rfl

/-- **Maintenance makes the configuration supported again** after any change of certificates. -/
theorem supported_maintained {ca changed : CertificateAuthority} (h : ca.Supported)
    (haspa : changed.aspa = ca.aspa)
    (hord : ∀ resources ∈ changed.incoming.values, resources.Ordered) :
    changed.maintained.Supported := by
  -- what lapses is looked for in the new certificates, and all the rest was supported before
  have hdropped : changed.dropLapsedEntries.Supported := by
    refine ⟨?_, fun hfind => ?_, fun hfind => ?_, fun hfind => ?_⟩
    · rw [dropLapsedEntries_incoming]
      exact hord
    · rw [dropLapsedEntries_incoming]
      exact (containsAsn_certified hord _).mp (find?_dropLapsedEntries hfind).2
    · exact h.others (haspa ▸ (find?_dropLapsedEntries hfind).1)
    · exact h.assigned (haspa ▸ (find?_dropLapsedEntries hfind).1)
  exact hdropped.congr (dropLapsedRoutes_incoming _) (dropLapsedRoutes_aspa _)

end CertificateAuthority

/-! ### Commands -/

namespace Command

/-- A certificate that a command passes on is a list of blocks with their ends in order. -/
def IsOrdered (c : Command) : Prop :=
  match c.details with
  | .updateIncomingCertificate _ resources => resources.Ordered
  | _ => True

/-- **Changes keep the configuration supported.** -/
theorem Changes.supported {c : Command} {ca : CertificateAuthority} {change : Change}
    (h : c.Changes ca change) (hc : c.IsOrdered) (hca : ca.Supported) :
    ∀ ca' ∈ change.authority, ca'.Supported := by
  cases h with
  | issued hd =>
    rw [IsOrdered, hd] at hc
    rintro _ ⟨⟩
    exact CertificateAuthority.supported_maintained hca rfl
      (CertificateAuthority.ordered_setIncoming hca.ordered hc)
  | @revoked key =>
    rintro _ ⟨⟩
    exact CertificateAuthority.supported_maintained hca rfl
      (CertificateAuthority.ordered_removeIncoming hca.ordered key)
  | subscribed | unsubscribed | ignored =>
    rintro _ ⟨⟩
    exact hca.congr rfl rfl
  | configured _ hallowed =>
    rintro _ ⟨⟩
    exact CertificateAuthority.supported_of_newConfiguration hca.ordered hallowed
  | deleted => rintro _ ⟨⟩

/-- **Commands keep the configuration supported.** -/
theorem effect_supported {c : Command} {uuid : Uuid} {found : Option CertificateAuthority}
    {change : Change} (hc : c.IsOrdered) (hfound : ∀ ca ∈ found, ca.Supported)
    (h : (c.effect uuid found).outcome = .ok change) : ∀ ca ∈ change.authority, ca.Supported := by
  cases found with
  | none =>
    obtain ⟨name, -, rfl⟩ := effect_none_eq_ok h
    rintro ca ⟨⟩
    exact CertificateAuthority.supported_create _ _ _
  | some found => exact (effect_some_eq_ok h).supported hc (hfound found rfl)

end Command

end RpkiAuthority
