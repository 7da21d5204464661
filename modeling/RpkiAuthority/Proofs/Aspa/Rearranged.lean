import Mathlib.Data.List.Nodup
import RpkiAuthority.Proofs.Aspa.Notation

/-!
# Entries in any order

What submitted entries stand for does not depend on the order in which they and their providers are
written down: entries make a configuration exactly if they are its own entries rearranged
(`AspaConfiguration.ofEntries_eq_ok_iff_rearranged`). Only where something is repeated the order
matters, for the error names the repetition that is met first, and whatever stands behind it is not
looked at (`AspaConfiguration.ofEntries_eq_error_iff`).
-/

namespace RpkiAuthority

/-! ### Rearranging -/

/-- Two entries are about one customer and list the same providers, in any order. -/
structure AspaEntry.Alike (e e' : AspaEntry) : Prop where
  customer : e.customer = e'.customer
  providers : e.providers.Perm e'.providers

namespace AspaConfiguration

/-- **The same entries in any order**, each with its providers in any order. -/
def Rearranged (entries entries' : List AspaEntry) : Prop :=
  ∃ between, List.Forall₂ AspaEntry.Alike entries between ∧ between.Perm entries'

variable {m : AspaConfiguration} {entries entries' : List AspaEntry}

/-- What does not depend on the order of an entry's providers is so of an entry of both. -/
theorem Rearranged.exists_mem_iff (h : Rearranged entries entries') {P : AspaEntry → Prop}
    (hP : ∀ {e e'}, e.Alike e' → (P e ↔ P e')) : (∃ e ∈ entries, P e) ↔ ∃ e ∈ entries', P e := by
  obtain ⟨between, halike, hperm⟩ := h
  have hbetween : (∃ e ∈ entries, P e) ↔ ∃ e ∈ between, P e := by
    induction halike generalizing entries' with
    | nil => exact Iff.rfl
    | cons he _ ih => rw [List.exists_mem_cons_iff, List.exists_mem_cons_iff, hP he, ih .rfl]
  exact hbetween.trans (exists_congr fun e => and_congr_left fun _ => hperm.mem_iff)

theorem map_customer_of_alike (h : List.Forall₂ AspaEntry.Alike entries entries') :
    entries.map AspaEntry.customer = entries'.map AspaEntry.customer := by
  induction h with
  | nil => rfl
  | cons he _ ih => rw [List.map_cons, List.map_cons, he.customer, ih]

/-- Rearranged entries repeat something together. -/
theorem Rearranged.distinct_iff (h : Rearranged entries entries') :
    Distinct entries ↔ Distinct entries' := by
  have hproviders : (∀ e ∈ entries, e.providerAsns.Nodup) ↔
      ∀ e ∈ entries', e.providerAsns.Nodup := by
    have hrepeated := h.exists_mem_iff (P := fun e => ¬e.providerAsns.Nodup)
      fun he => not_congr (he.providers.map AspaProvider.asn).nodup_iff
    simpa using not_congr hrepeated
  obtain ⟨between, halike, hperm⟩ := h
  rw [Distinct, Distinct, hproviders, map_customer_of_alike halike,
    (hperm.map AspaEntry.customer).nodup_iff]

/-- They say the same. -/
theorem Rearranged.comprises_iff (h : Rearranged entries entries') :
    m.Comprises entries ↔ m.Comprises entries' := by
  refine forall_congr' fun customer => forall_congr' fun providers => ?_
  rw [h.exists_mem_iff fun he => ?_]
  refine and_congr (by rw [he.customer]) (forall_congr' fun a => forall_congr' fun limit => ?_)
  rw [he.providers.mem_iff]

/-- **Rearranged entries stand for the same configuration.** -/
theorem Rearranged.ofEntries_eq_ok_iff (h : Rearranged entries entries') :
    ofEntries entries = .ok m ↔ ofEntries entries' = .ok m := by
  rw [AspaConfiguration.ofEntries_eq_ok_iff, AspaConfiguration.ofEntries_eq_ok_iff, h.distinct_iff,
    h.comprises_iff]

/-- An entry of a list that repeats nothing is one of the configuration that says the same. -/
theorem Comprises.mem_toEntries_iff (h : m.Comprises entries) (hdistinct : Distinct entries)
    {e : AspaEntry} : e ∈ m.toEntries ↔ ∃ d ∈ entries, ⟨d.customer, d.made.toList⟩ = e := by
  rw [toEntries, List.mem_map]
  constructor
  · rintro ⟨⟨customer, providers⟩, hentry, rfl⟩
    obtain ⟨d, hd, rfl, hproviders⟩ := (h _ _).mp (OrdMap.find?_eq_some_iff.mpr hentry)
    exact ⟨d, hd, by rw [hproviders.eq (AspaEntry.comprises_made (hdistinct.2 d hd))]⟩
  · rintro ⟨d, hd, rfl⟩
    refine ⟨(d.customer, d.made), OrdMap.find?_eq_some_iff.mp ((h _ _).mpr ⟨d, hd, rfl, ?_⟩), rfl⟩
    exact AspaEntry.comprises_made (hdistinct.2 d hd)

/-- **Entries that repeat nothing** are those of the configuration that says the same. -/
theorem Comprises.rearranged (h : m.Comprises entries) (hdistinct : Distinct entries) :
    Rearranged entries m.toEntries := by
  -- first the providers of each entry are put in order, and then the entries
  refine ⟨entries.map fun e => ⟨e.customer, e.made.toList⟩, ?_, ?_⟩
  · rw [List.forall₂_map_right_iff, List.forall₂_same]
    intro e he
    have hasns : e.made.toList.map AspaProvider.asn = e.made.keys := List.map_map
    refine ⟨rfl, (List.perm_ext_iff_of_nodup (List.Nodup.of_map _ (hdistinct.2 e he))
      (List.Nodup.of_map _ (hasns ▸ OrdMap.nodup_keys e.made))).mpr fun p => ?_⟩
    exact (AspaEntry.comprises_made (hdistinct.2 e he) p.asn p.limit).symm.trans
      (e.made.comprises_toList p.asn p.limit)
  · have hcustomers : m.toEntries.map AspaEntry.customer = m.keys := List.map_map
    have hlisted : (entries.map fun e => (⟨e.customer, e.made.toList⟩ : AspaEntry)).map
        AspaEntry.customer = entries.map AspaEntry.customer := List.map_map
    refine (List.perm_ext_iff_of_nodup (List.Nodup.of_map _ (hlisted ▸ hdistinct.1))
      (List.Nodup.of_map _ (hcustomers ▸ OrdMap.nodup_keys m))).mpr fun e => ?_
    rw [h.mem_toEntries_iff hdistinct, List.mem_map]

/-- **Entries make a configuration** exactly if they are its entries rearranged. -/
theorem ofEntries_eq_ok_iff_rearranged :
    ofEntries entries = .ok m ↔ Rearranged entries m.toEntries := by
  constructor
  · intro h
    obtain ⟨hdistinct, hcomprises⟩ := ofEntries_eq_ok_iff.mp h
    exact hcomprises.rearranged hdistinct
  · intro h
    exact h.ofEntries_eq_ok_iff.mpr (ofEntries_toEntries m)

end AspaConfiguration

/-! ### The first repetition -/

namespace AspaEntry

variable {customer : Asn} {m m' : AspaProviders} {first rest : List AspaProvider}

/-- Providers are added to those that were added before. -/
theorem addProviders_append (h : addProviders customer m first = .ok m') :
    addProviders customer m (first ++ rest) = addProviders customer m' rest := by
  induction first generalizing m with
  | nil => rw [List.nil_append, Except.ok.inj h]
  | cons p first ih =>
    rw [addProviders] at h
    split at h
    · exact absurd h (by simp)
    · next hp => rw [List.cons_append, addProviders, if_neg hp, ih h]

end AspaEntry

namespace AspaConfiguration

variable {m m' : AspaConfiguration} {before rest entries : List AspaEntry} {r : AspaRepetition}

/-- So are entries. -/
theorem addEntries_append (h : addEntries m before = .ok m') :
    addEntries m (before ++ rest) = addEntries m' rest := by
  induction before generalizing m with
  | nil => rw [List.nil_append, Except.ok.inj h]
  | cons e before ih =>
    rw [addEntries] at h
    rw [List.cons_append, addEntries]
    cases hproviders : AspaEntry.addProviders e.customer OrdMap.empty e.providers with
    | error r =>
      rw [hproviders] at h
      exact absurd h (by simp)
    | ok providers =>
      rw [hproviders] at h
      dsimp only at h ⊢
      split at h
      · exact absurd h (by simp)
      · next he => rw [if_neg he, ih h]

/-- **There is a configuration** exactly if nothing is repeated. -/
theorem exists_ofEntries_eq_ok_iff : (∃ m, ofEntries entries = .ok m) ↔ Distinct entries := by
  constructor
  · rintro ⟨m, hm⟩
    exact (ofEntries_eq_ok_iff.mp hm).1
  · intro h
    exact ⟨_, addEntries_eq_ok_iff.mpr ⟨h, fun _ _ hmem => absurd hmem List.not_mem_nil, rfl⟩⟩

/-- **A repetition that is the first** is the error. -/
theorem Repeats.ofEntries_eq (h : Repeats entries r) : ofEntries entries = .error r := by
  cases h with
  | @provider before after e first more p heq hbefore hproviders hfirst hp =>
    obtain ⟨m, hm⟩ := exists_ofEntries_eq_ok_iff.mpr hbefore
    -- the providers in front make a set of their own, which has the one that comes again
    have hmade := AspaEntry.addProviders_empty_eq_ok_iff (e := ⟨e.customer, first⟩).mpr
      ⟨hfirst, rfl⟩
    have hthere : (AspaEntry.made ⟨e.customer, first⟩).contains p.asn = true :=
      OrdMap.contains_iff.mpr
        ((AspaEntry.comprises_made (e := ⟨e.customer, first⟩) hfirst).mem_keys_iff.mpr hp)
    have hfail : AspaEntry.addProviders e.customer OrdMap.empty e.providers =
        .error (.provider e.customer p.asn) := by
      rw [hproviders, AspaEntry.addProviders_append hmade, AspaEntry.addProviders, if_pos hthere]
    rw [heq, ofEntries, addEntries_append hm, addEntries, hfail]
  | @customer before after e heq hbefore hproviders hcustomer =>
    obtain ⟨m, hm⟩ := exists_ofEntries_eq_ok_iff.mpr hbefore
    have hthere : m.contains e.customer = true := by
      obtain ⟨b, hb, hsame⟩ := List.mem_map.mp hcustomer
      have hfind : m.find? e.customer = some b.made :=
        ((ofEntries_eq_ok_iff.mp hm).2 _ _).mpr
          ⟨b, hb, hsame, AspaEntry.comprises_made (hbefore.2 b hb)⟩
      exact Option.isSome_of_eq_some hfind
    rw [heq, ofEntries, addEntries_append hm, addEntries,
      AspaEntry.addProviders_empty_eq_ok_iff.mpr ⟨hproviders, rfl⟩]
    exact if_pos hthere

/-- **The error names the first repetition**, and there is an error only where there is one. -/
theorem ofEntries_eq_error_iff : ofEntries entries = .error r ↔ Repeats entries r :=
  ⟨repeats_of_ofEntries, Repeats.ofEntries_eq⟩

/-- The second entry repeats both its customer and a provider. -/
example : ofEntries [⟨⟨1, by decide⟩, [⟨⟨2, by decide⟩, .any⟩]⟩,
    ⟨⟨1, by decide⟩, [⟨⟨3, by decide⟩, .any⟩, ⟨⟨3, by decide⟩, .ipv4⟩]⟩] =
      .error (.provider ⟨1, by decide⟩ ⟨3, by decide⟩) := by
  decide

/-- **Entries make a configuration or repeat something.** They make one exactly if no customer is
listed twice and no provider twice for a customer. The configuration then says what the entries say
and lists them rearranged, and it is the same for all their rearrangements; the entries that a
configuration lists make it again. Otherwise the error is about the repetition that comes first,
where the providers of an entry come before its customer. -/
theorem ofEntries_decided (entries : List AspaEntry) :
    ((∃ m, ofEntries entries = .ok m) ↔ Distinct entries) ∧
    (∀ m, ofEntries entries = .ok m → m.Comprises entries) ∧
    (∀ m, ofEntries entries = .ok m ↔ Rearranged entries m.toEntries) ∧
    (∀ entries', Rearranged entries entries' →
      ∀ m, ofEntries entries = .ok m ↔ ofEntries entries' = .ok m) ∧
    (∀ m : AspaConfiguration, ofEntries m.toEntries = .ok m) ∧
    ∀ r, ofEntries entries = .error r ↔ Repeats entries r :=
  ⟨exists_ofEntries_eq_ok_iff, fun _ h => (ofEntries_eq_ok_iff.mp h).2,
    fun _ => ofEntries_eq_ok_iff_rearranged, fun _ h _ => h.ofEntries_eq_ok_iff,
    ofEntries_toEntries, fun _ => ofEntries_eq_error_iff⟩

end AspaConfiguration

end RpkiAuthority
