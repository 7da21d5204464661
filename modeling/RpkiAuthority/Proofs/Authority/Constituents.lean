import Mathlib.Data.List.Permutation
import RpkiAuthority.Proofs.Authority.Recertified
import RpkiAuthority.Proofs.Resource.Answers

/-!
# Sets answer for their constituents

Every decision about resources asks a set whether it contains an AS number or overlaps a prefix. The
set has been read from a text, made of AS numbers, or put together from other sets, in the end from
the certificates of an authority. Whichever it is, **the answer is that of the constituents**
(`ResourceSet.answers_for_constituents`): of the items of the text, the AS numbers, the two sets, or
the certificates.

The order of the constituents decides how the blocks are joined, and so which set it is. It does not
decide any answer: constituents that are the same except for their order, or the names of the keys
they are kept under, make sets that answer alike.
-/

namespace RpkiAuthority

namespace CertificateAuthority

variable {ca ca' : CertificateAuthority}

/-- The address is in one of the certificates. -/
def CertifiesAddress (ca : CertificateAuthority) (f : Family) (n : Nat) : Prop :=
  ∃ certificate ∈ ca.incoming.values, certificate.HoldsAddress f n

/-- **What is certified answers for the certificates.** -/
theorem answers_certified (h : ∀ certificate ∈ ca.incoming.values, certificate.Ordered) :
    ca.certified.Answers ca.Certifies ca.CertifiesAddress where
  containsAsn := containsAsn_certified h
  overlaps p := by
    -- the search does not look at the AS number of a route
    refine (overlaps_certified h ⟨⟨0, by decide⟩, p⟩).trans ⟨?_, ?_⟩
    · rintro ⟨certificate, hc, n, hn, hholds⟩
      exact ⟨n, hn, certificate, hc, hholds⟩
    · rintro ⟨n, hn, certificate, hc, hholds⟩
      exact ⟨certificate, hc, n, hn, hholds⟩

/-- The names of the keys do not matter for what is certified. -/
theorem certifies_congr (h : ∀ certificate, certificate ∈ ca.incoming.values ↔
    certificate ∈ ca'.incoming.values) :
    (∀ a, ca.Certifies a ↔ ca'.Certifies a) ∧
      ∀ f n, ca.CertifiesAddress f n ↔ ca'.CertifiesAddress f n := by
  constructor
  · intro a
    simp only [Certifies, h]
  · intro f n
    simp only [CertifiesAddress, h]

end CertificateAuthority

namespace ResourceSet

open CertificateAuthority

/-- The same items name the same, whatever their order. -/
theorem exists_read_of_same_items {text text' : String} {s : ResourceSet} (h : read text = .ok s)
    (hitems : ∀ item, item ∈ items text.toList ↔ item ∈ items text'.toList) :
    ∃ s', read text' = .ok s' ∧ s.SameAnswers s' := by
  have hreads := exists_read_eq_ok_iff.mp ⟨s, h⟩
  simp only [hitems] at hreads
  obtain ⟨s', h'⟩ := exists_read_eq_ok_iff.mpr hreads
  refine ⟨s', h', ((answers_read h).congr (fun a => ?_) fun f n => ?_).same (answers_read h')⟩
  · simp only [MentionsAsn, hitems]
  · simp only [MentionsAddress, hitems]

/-- **Sets answer for their constituents**: a set that is read for the items of the text, a set of
AS numbers for these, a union for both sets, and what an authority has certified for its
certificates. So sets of the same constituents answer alike, whatever the order of these and the
names of the keys. -/
theorem answers_for_constituents :
    (∀ (text : String) (s : ResourceSet), read text = .ok s →
      s.Answers (MentionsAsn text) (MentionsAddress text)) ∧
    (∀ asns : List Asn, (ofAsns asns).Answers (· ∈ asns) fun _ _ => False) ∧
    (∀ s t : ResourceSet, s.Ordered → t.Ordered →
      (s.union t).Answers (fun a => s.HoldsAsn a ∨ t.HoldsAsn a)
        fun f n => s.HoldsAddress f n ∨ t.HoldsAddress f n) ∧
    (∀ ca : CertificateAuthority, (∀ certificate ∈ ca.incoming.values, certificate.Ordered) →
      ca.certified.Answers ca.Certifies ca.CertifiesAddress) ∧
    (∀ (text text' : String) (s : ResourceSet), read text = .ok s →
      (∀ item, item ∈ items text.toList ↔ item ∈ items text'.toList) →
      ∃ s', read text' = .ok s' ∧ s.SameAnswers s') ∧
    (∀ asns asns' : List Asn, (∀ a, a ∈ asns ↔ a ∈ asns') →
      (ofAsns asns).SameAnswers (ofAsns asns')) ∧
    (∀ s t : ResourceSet, s.Ordered → t.Ordered → (s.union t).SameAnswers (t.union s)) ∧
    ∀ ca ca' : CertificateAuthority,
      (∀ certificate ∈ ca.incoming.values, certificate.Ordered) →
      (∀ certificate, certificate ∈ ca.incoming.values ↔ certificate ∈ ca'.incoming.values) →
      ca.certified.SameAnswers ca'.certified := by
  refine ⟨fun text s => answers_read, answers_ofAsns, fun s t => answers_union,
    fun ca => answers_certified, fun text text' s => exists_read_of_same_items,
    fun asns asns' h => ?_, fun s t hs ht => ?_, fun ca ca' hord h => ?_⟩
  · exact ((answers_ofAsns asns).congr h fun _ _ => Iff.rfl).same (answers_ofAsns asns')
  · exact ((answers_union hs ht).congr (fun _ => or_comm) fun _ _ => or_comm).same
      (answers_union ht hs)
  · have hord' : ∀ certificate ∈ ca'.incoming.values, certificate.Ordered :=
      fun certificate hc => hord certificate ((h certificate).mpr hc)
    obtain ⟨hasns, haddresses⟩ := certifies_congr h
    exact ((answers_certified hord).congr hasns haddresses).same (answers_certified hord')

/-- An authority with these certificates for two keys. -/
def certifiedFor (first second : ResourceSet) : CertificateAuthority :=
  { CertificateAuthority.create 1 "authority" (Uuid.ofNat 0) with
    incoming := OrdMap.ofList [("first", first), ("second", second)] }

/-- Two texts with the same items are read as different sets that answer alike. So it is with the
unions of two sets, and with two authorities that have the same certificates for other keys. -/
theorem answers_for_constituents_bridged :
    ∃ s t u v : ResourceSet,
      read "AS10-AS20, AS30-AS40, AS5-AS35" = .ok u ∧
      read "AS5-AS35, AS10-AS20, AS30-AS40" = .ok v ∧ u ≠ v ∧ u.SameAnswers v ∧
      s.union t = u ∧ t.union s = v ∧ (s.union t).SameAnswers (t.union s) ∧
      (certifiedFor s t).certified = u ∧ (certifiedFor t s).certified = v ∧
      (certifiedFor s t).certified.SameAnswers (certifiedFor t s).certified ∧
      (certifiedFor s t).certified.containsAsn ⟨25, by decide⟩ = true := by
  let s : ResourceSet := ⟨[⟨10, 20⟩, ⟨30, 40⟩], [], []⟩
  let t : ResourceSet := ⟨[⟨5, 35⟩], [], []⟩
  let u : ResourceSet := ⟨[⟨5, 35⟩, ⟨30, 40⟩], [], []⟩
  let v : ResourceSet := ⟨[⟨5, 40⟩], [], []⟩
  have hu : read "AS10-AS20, AS30-AS40, AS5-AS35" = .ok u :=
    read_eq_ok_iff.mpr ⟨[.asns ⟨10, 20⟩, .asns ⟨30, 40⟩, .asns ⟨5, 35⟩], rfl, by cbv⟩
  have hv : read "AS5-AS35, AS10-AS20, AS30-AS40" = .ok v :=
    read_eq_ok_iff.mpr ⟨[.asns ⟨5, 35⟩, .asns ⟨10, 20⟩, .asns ⟨30, 40⟩], rfl, by cbv⟩
  have hitems : (items "AS10-AS20, AS30-AS40, AS5-AS35".toList).Perm
      (items "AS5-AS35, AS10-AS20, AS30-AS40".toList) := by decide
  have hcertificates : (certifiedFor s t).incoming.values.Perm
      (certifiedFor t s).incoming.values := by decide
  have hs : s.Ordered := by decide
  have ht : t.Ordered := by decide
  obtain ⟨-, -, -, hcertified, htexts, -, hunions, hauthorities⟩ := answers_for_constituents
  obtain ⟨v', hv', hsame⟩ := htexts _ _ u hu fun item => hitems.mem_iff
  obtain rfl : v = v' := Except.ok.inj (hv.symm.trans hv')
  refine ⟨s, t, u, v, hu, hv, by decide, hsame, by cbv, by cbv, hunions s t hs ht, by cbv, by cbv,
    hauthorities _ _ (by decide) fun certificate => hcertificates.mem_iff, ?_⟩
  exact ((hcertified (certifiedFor s t) (by decide)).containsAsn _).mpr
    ⟨t, by decide, ⟨5, 35⟩, by decide, by decide, by decide⟩

end ResourceSet

end RpkiAuthority
