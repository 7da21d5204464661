import RpkiAuthority.Aspa.Configuration
import RpkiAuthority.Proofs.Collection.Lookup

/-!
# What submitted entries stand for

Entries are added one after the other, and so are the providers of each. Either nothing comes twice,
and then the configuration says what the entries say and nothing else
(`AspaConfiguration.Comprises`), or the entry that repeats something first decides about the error:
its first provider that comes again, or else its customer (`AspaConfiguration.Repeats`).
-/

namespace RpkiAuthority

/-- The AS numbers of the providers, in the order in which they are submitted. -/
def AspaEntry.providerAsns (e : AspaEntry) : List Asn := e.providers.map AspaProvider.asn

/-- Providers are those of a list, with their limits. -/
def AspaProviders.Comprises (m : AspaProviders) (l : List AspaProvider) : Prop :=
  ∀ a limit, m.find? a = some limit ↔ ⟨a, limit⟩ ∈ l

namespace AspaConfiguration

/-- **A configuration says what entries say**: its customers are theirs, each with the providers of
its entry. -/
def Comprises (m : AspaConfiguration) (entries : List AspaEntry) : Prop :=
  ∀ customer providers, m.find? customer = some providers ↔
    ∃ e ∈ entries, e.customer = customer ∧ providers.Comprises e.providers

/-- **Entries repeat nothing**: no customer is listed twice, and no provider twice for a
customer. -/
def Distinct (entries : List AspaEntry) : Prop :=
  (entries.map AspaEntry.customer).Nodup ∧ ∀ e ∈ entries, e.providerAsns.Nodup

/-- **The first repetition** is in the entry behind those that repeat nothing. -/
inductive Repeats (entries : List AspaEntry) : AspaRepetition → Prop where
  /-- It lists a provider again. -/
  | provider {before after : List AspaEntry} {e : AspaEntry} {first more : List AspaProvider}
    {p : AspaProvider} (heq : entries = before ++ e :: after) (hbefore : Distinct before)
    (hproviders : e.providers = first ++ p :: more) (hfirst : (first.map AspaProvider.asn).Nodup)
    (hp : p.asn ∈ first.map AspaProvider.asn) : Repeats entries (.provider e.customer p.asn)
  /-- It repeats no provider, and its customer was listed before. -/
  | customer {before after : List AspaEntry} {e : AspaEntry} (heq : entries = before ++ e :: after)
    (hbefore : Distinct before) (hproviders : e.providerAsns.Nodup)
    (hcustomer : e.customer ∈ before.map AspaEntry.customer) :
    Repeats entries (.customer e.customer)

end AspaConfiguration

/-! ### Maps that are made one entry after the other -/

namespace OrdMap

open Std (TransOrd LawfulEqOrd)

variable {α κ ν : Type} [Ord κ] [TransOrd κ] [LawfulEqOrd κ]

/-- **A map that new keys are added to** has what was there, and what was added. -/
theorem find?_foldl_insert_of_nodup (key : α → κ) (value : α → ν) {l : List α}
    (h : (l.map key).Nodup) {m : OrdMap κ ν} (hnew : ∀ a ∈ l, key a ∉ m.keys) (k : κ) (v : ν) :
    (l.foldl (fun m a => m.insert (key a) (value a)) m).find? k = some v ↔
      m.find? k = some v ∨ ∃ a ∈ l, key a = k ∧ value a = v := by
  induction l generalizing m with
  | nil => simp
  | cons a l ih =>
    rw [List.map_cons, List.nodup_cons] at h
    obtain ⟨ha, hl⟩ := List.forall_mem_cons.mp hnew
    have hnone : m.find? (key a) = none :=
      contains_eq_false_iff.mp (Bool.eq_false_iff.mpr fun hc => ha (contains_iff.mp hc))
    have hfirst : (∃ b ∈ a :: l, key b = k ∧ value b = v) ↔
        (key a = k ∧ value a = v) ∨ ∃ b ∈ l, key b = k ∧ value b = v := by
      simp
    rw [List.foldl_cons, ih h.2, find?_insert_eq_some_iff, hfirst, ← or_assoc]
    · refine or_congr_left ⟨?_, ?_⟩
      · rintro (⟨rfl, rfl⟩ | ⟨-, hm⟩)
        · exact .inr ⟨rfl, rfl⟩
        · exact .inl hm
      · rintro (hm | ⟨rfl, rfl⟩)
        · refine .inr ⟨fun hk => ?_, hm⟩
          rw [hk, hnone] at hm
          exact absurd hm.symm (Option.some_ne_none v)
        · exact .inl ⟨rfl, rfl⟩
    · intro b hb hkeys
      rcases mem_keys_insert.mp hkeys with heq | hm
      · exact h.1 (heq ▸ List.mem_map_of_mem hb)
      · exact hl b hb hm

/-- Of the map that is made from nothing. -/
theorem find?_foldl_insert_empty (key : α → κ) (value : α → ν) {l : List α}
    (h : (l.map key).Nodup) (k : κ) (v : ν) :
    (l.foldl (fun m a => m.insert (key a) (value a)) empty).find? k = some v ↔
      ∃ a ∈ l, key a = k ∧ value a = v :=
  (find?_foldl_insert_of_nodup key value h (fun _ _ h => absurd h List.not_mem_nil) k v).trans
    (or_iff_right fun h => nomatch h)

end OrdMap

/-! ### Providers -/

namespace AspaEntry

variable {customer : Asn} {m m' : AspaProviders} {l first : List AspaProvider} {r : AspaRepetition}

/-- Providers that are added are new, and differ from each other. -/
theorem addProviders_eq_ok_iff : addProviders customer m l = .ok m' ↔
    (l.map AspaProvider.asn).Nodup ∧ (∀ p ∈ l, p.asn ∉ m.keys) ∧
      m' = l.foldl (fun m p => m.insert p.asn p.limit) m := by
  induction l generalizing m with
  | nil => simp [addProviders, eq_comm]
  | cons p l ih =>
    rw [addProviders]
    split
    · next hp =>
      refine iff_of_false (fun h => nomatch h) fun h => ?_
      exact h.2.1 p List.mem_cons_self (OrdMap.contains_iff.mp hp)
    · next hp =>
      rw [OrdMap.contains_iff] at hp
      rw [ih, List.map_cons, List.nodup_cons, List.forall_mem_cons, List.foldl_cons]
      simp only [OrdMap.mem_keys_insert, not_or, List.mem_map, not_exists, not_and]
      grind

/-- **The first provider that is there already** stops the adding. -/
theorem addProviders_eq_error (h : addProviders customer m l = .error r) :
    ∃ first p more, l = first ++ p :: more ∧ (first.map AspaProvider.asn).Nodup ∧
      (∀ q ∈ first, q.asn ∉ m.keys) ∧ (p.asn ∈ m.keys ∨ p.asn ∈ first.map AspaProvider.asn) ∧
        r = .provider customer p.asn := by
  induction l generalizing m with
  | nil => exact nomatch h
  | cons p l ih =>
    rw [addProviders] at h
    split at h
    · next hp =>
      exact ⟨[], p, l, rfl, .nil, fun _ h => absurd h List.not_mem_nil,
        .inl (OrdMap.contains_iff.mp hp), (Except.error.inj h).symm⟩
    · next hp =>
      rw [OrdMap.contains_iff] at hp
      obtain ⟨first, q, more, rfl, hfirst, hnew, hq, rfl⟩ := ih h
      simp only [OrdMap.mem_keys_insert, not_or] at hnew hq
      refine ⟨p :: first, q, more, rfl, ?_, ?_, ?_, rfl⟩
      · rw [List.map_cons, List.nodup_cons]
        refine ⟨fun hmem => ?_, hfirst⟩
        obtain ⟨d, hd, heq⟩ := List.mem_map.mp hmem
        exact (hnew d hd).1 heq
      · exact List.forall_mem_cons.mpr ⟨hp, fun d hd => (hnew d hd).2⟩
      · rw [List.map_cons, List.mem_cons]
        exact or_left_comm.mp (or_assoc.mp hq)

/-- The providers of an entry that repeats none. -/
def made (e : AspaEntry) : AspaProviders :=
  e.providers.foldl (fun m p => m.insert p.asn p.limit) OrdMap.empty

/-- An entry that repeats none has providers. -/
theorem addProviders_empty_eq_ok_iff {e : AspaEntry} :
    addProviders e.customer OrdMap.empty e.providers = .ok m ↔
      e.providerAsns.Nodup ∧ m = e.made := by
  rw [addProviders_eq_ok_iff, providerAsns, made]
  exact and_congr_right fun _ => and_iff_right fun _ _ h => absurd h List.not_mem_nil

theorem comprises_made {e : AspaEntry} (h : e.providerAsns.Nodup) :
    e.made.Comprises e.providers := by
  intro a limit
  rw [made, OrdMap.find?_foldl_insert_empty AspaProvider.asn AspaProvider.limit h]
  exact ⟨fun ⟨_, hp, hasn, hlimit⟩ => hasn ▸ hlimit ▸ hp, fun hp => ⟨_, hp, rfl, rfl⟩⟩

end AspaEntry

namespace AspaProviders

variable {m m' : AspaProviders} {l : List AspaProvider}

/-- Providers are determined by what they comprise. -/
theorem Comprises.eq (h : m.Comprises l) (h' : m'.Comprises l) : m = m' :=
  OrdMap.ext_find? fun a => Option.ext fun limit => (h a limit).trans (h' a limit).symm

theorem Comprises.mem_keys_iff (h : m.Comprises l) {a : Asn} :
    a ∈ m.keys ↔ a ∈ l.map AspaProvider.asn := by
  rw [← OrdMap.contains_iff, OrdMap.contains, Option.isSome_iff_exists, List.mem_map]
  refine (exists_congr (h a)).trans ⟨?_, ?_⟩
  · rintro ⟨_, hp⟩
    exact ⟨_, hp, rfl⟩
  · rintro ⟨p, hp, rfl⟩
    exact ⟨p.limit, hp⟩

theorem comprises_toList (m : AspaProviders) : m.Comprises m.toList := by
  intro a limit
  rw [OrdMap.find?_eq_some_iff, toList, List.mem_map]
  exact ⟨fun h => ⟨_, h, rfl⟩, fun ⟨_, h, heq⟩ => by cases heq; exact h⟩

end AspaProviders

/-! ### Entries -/

namespace AspaConfiguration

variable {m m' : AspaConfiguration} {entries : List AspaEntry} {r : AspaRepetition}

/-- So is a configuration. -/
theorem Comprises.eq (h : m.Comprises entries) (h' : m'.Comprises entries) : m = m' :=
  OrdMap.ext_find? fun customer => Option.ext fun providers =>
    (h customer providers).trans (h' customer providers).symm

theorem distinct_cons {e : AspaEntry} : Distinct (e :: entries) ↔
    e.providerAsns.Nodup ∧ e.customer ∉ entries.map AspaEntry.customer ∧ Distinct entries := by
  rw [Distinct, Distinct, List.map_cons, List.nodup_cons, List.forall_mem_cons, and_assoc]
  exact ⟨fun ⟨he, hnodup, hproviders, hall⟩ => ⟨hproviders, he, hnodup, hall⟩,
    fun ⟨hproviders, he, hnodup, hall⟩ => ⟨he, hnodup, hproviders, hall⟩⟩

/-- Entries that are added are about new customers, and repeat nothing. -/
theorem addEntries_eq_ok_iff : addEntries m entries = .ok m' ↔
    Distinct entries ∧ (∀ e ∈ entries, e.customer ∉ m.keys) ∧
      m' = entries.foldl (fun m e => m.insert e.customer e.made) m := by
  induction entries generalizing m with
  | nil => simp [addEntries, Distinct, eq_comm]
  | cons e entries ih =>
    rw [addEntries, distinct_cons, List.forall_mem_cons, List.foldl_cons]
    cases hproviders : AspaEntry.addProviders e.customer OrdMap.empty e.providers with
    | error r =>
      refine iff_of_false (fun h => nomatch h) fun h => ?_
      exact nomatch hproviders.symm.trans
        (AspaEntry.addProviders_empty_eq_ok_iff.mpr ⟨h.1.1, rfl⟩)
    | ok providers =>
      obtain ⟨hnodup, rfl⟩ := AspaEntry.addProviders_empty_eq_ok_iff.mp hproviders
      dsimp only
      split
      · next he =>
        exact iff_of_false (fun h => nomatch h) fun h => h.2.1.1 (OrdMap.contains_iff.mp he)
      · next he =>
        rw [OrdMap.contains_iff] at he
        rw [ih]
        simp only [OrdMap.mem_keys_insert, not_or, List.mem_map, not_exists, not_and]
        grind

/-- **The entry that repeats something first** stops the adding. -/
theorem addEntries_eq_error (h : addEntries m entries = .error r) :
    ∃ before e after, entries = before ++ e :: after ∧ Distinct before ∧
      (∀ b ∈ before, b.customer ∉ m.keys) ∧
        (AspaEntry.addProviders e.customer OrdMap.empty e.providers = .error r ∨
          e.providerAsns.Nodup ∧ r = .customer e.customer ∧
            (e.customer ∈ m.keys ∨ e.customer ∈ before.map AspaEntry.customer)) := by
  induction entries generalizing m with
  | nil => exact nomatch h
  | cons e entries ih =>
    have hnone : Distinct [] := ⟨.nil, fun _ h => absurd h List.not_mem_nil⟩
    rw [addEntries] at h
    cases hproviders : AspaEntry.addProviders e.customer OrdMap.empty e.providers with
    | error r' =>
      rw [hproviders] at h
      obtain rfl := Except.error.inj h
      exact ⟨[], e, entries, rfl, hnone, fun _ h => absurd h List.not_mem_nil, .inl hproviders⟩
    | ok providers =>
      obtain ⟨hnodup, -⟩ := AspaEntry.addProviders_empty_eq_ok_iff.mp hproviders
      rw [hproviders] at h
      dsimp only at h
      split at h
      · next he =>
        exact ⟨[], e, entries, rfl, hnone, fun _ h => absurd h List.not_mem_nil,
          .inr ⟨hnodup, (Except.error.inj h).symm, .inl (OrdMap.contains_iff.mp he)⟩⟩
      · next he =>
        rw [OrdMap.contains_iff] at he
        obtain ⟨before, b, after, rfl, hbefore, hnew, hb⟩ := ih h
        simp only [OrdMap.mem_keys_insert, not_or] at hnew hb
        refine ⟨e :: before, b, after, rfl, distinct_cons.mpr ⟨hnodup, fun hmem => ?_, hbefore⟩,
          ?_, hb.imp_right fun hb => ⟨hb.1, hb.2.1, ?_⟩⟩
        · obtain ⟨d, hd, heq⟩ := List.mem_map.mp hmem
          exact (hnew d hd).1 heq
        · exact List.forall_mem_cons.mpr ⟨he, fun d hd => (hnew d hd).2⟩
        · rw [List.map_cons, List.mem_cons]
          exact or_left_comm.mp (or_assoc.mp hb.2.2)

/-! ### Configurations -/

/-- **Entries that repeat nothing make the configuration that says what they say.** -/
theorem ofEntries_eq_ok_iff :
    ofEntries entries = .ok m ↔ Distinct entries ∧ m.Comprises entries := by
  rw [ofEntries, addEntries_eq_ok_iff]
  refine and_congr_right fun hdistinct =>
    (and_iff_right fun _ _ h => absurd h List.not_mem_nil).trans ?_
  have hcomprises : Comprises
      (entries.foldl (fun m e => m.insert e.customer e.made) OrdMap.empty) entries := by
    intro customer providers
    rw [OrdMap.find?_foldl_insert_empty AspaEntry.customer AspaEntry.made hdistinct.1]
    refine exists_congr fun e => and_congr_right fun he => and_congr_right fun _ => ?_
    have hmade := AspaEntry.comprises_made (hdistinct.2 e he)
    exact ⟨fun h => h ▸ hmade, hmade.eq⟩
  exact ⟨fun h => h ▸ hcomprises, fun h => h.eq hcomprises⟩

/-- **Otherwise the error is about the first repetition.** -/
theorem repeats_of_ofEntries (h : ofEntries entries = .error r) : Repeats entries r := by
  obtain ⟨before, e, after, heq, hbefore, -, hrepeats⟩ := addEntries_eq_error h
  rcases hrepeats with hproviders | ⟨hnodup, rfl, hcustomer⟩
  · obtain ⟨first, p, more, hlist, hfirst, -, hp, rfl⟩ := AspaEntry.addProviders_eq_error hproviders
    exact .provider heq hbefore hlist hfirst (hp.resolve_left List.not_mem_nil)
  · exact .customer heq hbefore hnodup (hcustomer.resolve_left List.not_mem_nil)

/-- Entries with a repetition are not without one. -/
theorem Repeats.not_distinct (h : Repeats entries r) : ¬Distinct entries := by
  intro hdistinct
  cases h with
  | @provider before after e first more p heq _ hproviders _ hp =>
    have he := hdistinct.2 e (heq ▸ by simp)
    rw [AspaEntry.providerAsns, hproviders, List.map_append, List.map_cons] at he
    exact (List.nodup_append.mp he).2.2 _ hp _ List.mem_cons_self rfl
  | @customer before after e heq _ _ hcustomer =>
    have hcustomers := hdistinct.1
    rw [heq, List.map_append, List.map_cons] at hcustomers
    exact (List.nodup_append.mp hcustomers).2.2 _ hcustomer _ List.mem_cons_self rfl

end AspaConfiguration

end RpkiAuthority
