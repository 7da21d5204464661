import RpkiAuthority.Proofs.Authority.Supported
import RpkiAuthority.Proofs.Engine.Failure
import RpkiAuthority.Proofs.Resource.Decomposed

/-!
# What a change of certificates does to an authority

A certificate that is issued or revoked takes part of the configuration with it: what no certificate
supports any more is removed in the same transaction, and noted in the same record. `Recertified`
says field by field what the authority is afterwards, in terms of the certificates it then has and
of single addresses and AS numbers, with nothing left open: what it does not mention is as it was
before.

In the record the sentence about the certificate comes first. A sentence about ASPA entries follows
if there are any that were removed, and then one about suppressed announcements in the same way
(`Engine.execute_recertified`). What such a sentence lists is what was there before and is not
there afterwards, in order.
-/

namespace RpkiAuthority

/-- The event that the certificate for a key is another one, or none. -/
def AuthorityEvent.ofCertificate (authority : VersionedId) (key : String) :
    Option ResourceSet → AuthorityEvent
  | some resources => .incomingCertificateUpdated authority key resources
  | none => .incomingCertificateRevoked authority key

namespace CertificateAuthority

/-! ### What certificates support -/

/-- The AS number is in one of the certificates. -/
def Certifies (ca : CertificateAuthority) (customer : Asn) : Prop :=
  ∃ certificate ∈ ca.incoming.values, certificate.HoldsAsn customer

/-- An address of the announced prefix is in one of the certificates. -/
def Reaches (ca : CertificateAuthority) (route : AnnouncedRoute) : Prop :=
  ∃ certificate ∈ ca.incoming.values, ∃ n ∈ route.pfx.block,
    certificate.HoldsAddress route.pfx.family n

/-- The search among the blocks of all certificates finds the prefixes that share an address with
one of them. -/
theorem overlaps_certified {ca : CertificateAuthority}
    (h : ∀ certificate ∈ ca.incoming.values, certificate.Ordered) (route : AnnouncedRoute) :
    ca.certified.overlaps route.pfx = true ↔ ca.Reaches route := by
  -- before the first certificate there is no block, in whichever family
  have hempty : ResourceSet.empty.addresses route.pfx.family = [] := by
    cases route.pfx.family <;> rfl
  obtain ⟨hord, -, hholds⟩ := ResourceSet.foldl_union_spec
    (fun s => s.addresses route.pfx.family) (by cases route.pfx.family <;> exact fun _ _ => rfl)
    (fun certificate hc => (h certificate hc).addresses route.pfx.family)
    (s := ResourceSet.empty) (by rw [hempty]; exact fun b hb => absurd hb List.not_mem_nil)
    (by rw [hempty]; exact .nil)
  have hnone : ∀ n, ¬Block.Holds (ResourceSet.empty.addresses route.pfx.family) n := by
    rw [hempty]
    exact Block.not_holds_nil
  refine (Block.meetsAny_iff hord route.pfx.addr_le_last).trans ⟨?_, ?_⟩
  · rintro ⟨n, hn, hheld⟩
    obtain ⟨certificate, hc, hheld⟩ := ((hholds n).mp hheld).resolve_left (hnone n)
    exact ⟨certificate, hc, n, hn, hheld⟩
  · rintro ⟨certificate, hc, n, hn, hheld⟩
    exact ⟨n, hn, (hholds n).mpr (Or.inr ⟨certificate, hc, hheld⟩)⟩

/-! ### Maintenance, field by field -/

variable (ca : CertificateAuthority)

/-- Whether or not entries lapse, those that stay are those for customers held. -/
theorem dropLapsedEntries_aspa :
    ca.dropLapsedEntries.aspa =
      ca.aspa.filter fun customer _ => ca.certified.containsAsn customer := by
  rw [dropLapsedEntries]
  split
  · next h =>
    refine (OrdMap.filter_eq_self fun e he => ?_).symm
    simpa using List.filter_eq_nil_iff.mp (List.isEmpty_iff.mp h) e he
  · rfl

theorem dropLapsedEntries_configurationUpdated :
    ca.dropLapsedEntries.configurationUpdated =
      (ca.configurationUpdated || !ca.lapsedEntries.isEmpty) := by
  rw [dropLapsedEntries]
  cases h : ca.lapsedEntries.isEmpty
  · exact (Bool.or_true _).symm
  · exact (Bool.or_false _).symm

/-- Whether or not announcements lapse, those that stay are those that share an address. -/
theorem dropLapsedRoutes_roaAlerts :
    ca.dropLapsedRoutes.roaAlerts =
      ca.roaAlerts.map fun alerts => alerts.retainOverlapping ca.certified := by
  rw [dropLapsedRoutes, lapsedRoutes]
  cases halerts : ca.roaAlerts with
  | none => exact halerts
  | some alerts =>
    dsimp only
    split
    · next h =>
      have hkept : alerts.ignored.filter (fun r _ => ca.certified.overlaps r.pfx) =
          alerts.ignored := by
        refine OrdMap.filter_eq_self fun e he => ?_
        have hpasses := List.filter_eq_nil_iff.mp (List.isEmpty_iff.mp h) e.1
          (List.mem_map_of_mem he)
        simpa using hpasses
      rw [halerts, Option.map_some, AlertConfiguration.retainOverlapping, hkept]
    · rw [CertificateAuthority.alerts, halerts]
      rfl

theorem dropLapsedEntries_roaAlerts : ca.dropLapsedEntries.roaAlerts = ca.roaAlerts := by
  rw [dropLapsedEntries]
  split <;> rfl

theorem certified_dropLapsedEntries : ca.dropLapsedEntries.certified = ca.certified := by
  rw [certified, dropLapsedEntries_incoming, certified]

/-- **Maintenance touches three fields** and nothing else. -/
theorem maintained_eq :
    ca.maintained =
      { ca with
        configurationUpdated := ca.configurationUpdated || !ca.lapsedEntries.isEmpty
        roaAlerts := ca.roaAlerts.map fun alerts => alerts.retainOverlapping ca.certified
        aspa := ca.aspa.filter fun customer _ => ca.certified.containsAsn customer } := by
  have hroutes : ∀ a : CertificateAuthority,
      a.dropLapsedRoutes = { a with roaAlerts := a.dropLapsedRoutes.roaAlerts } := by
    intro a
    rw [dropLapsedRoutes]
    split <;> rfl
  have hentries : ca.dropLapsedEntries = { ca with
      configurationUpdated := ca.dropLapsedEntries.configurationUpdated
      aspa := ca.dropLapsedEntries.aspa } := by
    rw [dropLapsedEntries]
    split <;> rfl
  rw [maintained, hroutes, dropLapsedRoutes_roaAlerts, certified_dropLapsedEntries,
    dropLapsedEntries_roaAlerts, hentries, dropLapsedEntries_aspa,
    dropLapsedEntries_configurationUpdated]

/-! ### Before and after -/

/-- The ASPA entries of an authority for customers that it has none for later. -/
def entriesMissing (ca ca' : CertificateAuthority) : List (Asn × AspaProviders) :=
  ca.aspa.entries.filter fun e => !ca'.aspa.contains e.1

/-- The suppressed announcements of an authority that it does not suppress later. -/
def routesMissing (ca ca' : CertificateAuthority) : List AnnouncedRoute :=
  ca.alerts.ignored.toList.filter fun route => !ca'.alerts.ignored.contains route

/-- **An authority after the certificate for a key changed**, or was removed: that certificate is
replaced, the configuration is what the certificates support of the one before, and everything else
but the version is the same. -/
structure Recertified (key : String) (resources : Option ResourceSet)
    (ca ca' : CertificateAuthority) : Prop where
  certificates : ∀ k, ca'.incoming.find? k = if k = key then resources else ca.incoming.find? k
  routes : ∀ route, route ∈ ca'.alerts.ignored.toList ↔
    route ∈ ca.alerts.ignored.toList ∧ ca'.Reaches route
  entries : ∀ customer providers, ca'.aspa.find? customer = some providers ↔
    ca.aspa.find? customer = some providers ∧ ca'.Certifies customer
  updated : ca'.configurationUpdated = true ↔
    ca.configurationUpdated = true ∨ ca.entriesMissing ca' ≠ []
  rest : ca' = { ca with
    version := ca.version + 1
    incoming := ca'.incoming
    configurationUpdated := ca'.configurationUpdated
    roaAlerts := ca.roaAlerts.map fun alerts => { alerts with ignored := ca'.alerts.ignored }
    aspa := ca'.aspa }

/-- What is noted when the certificate for a key changed, given the authority before and after. -/
def recertificationEvents (key : String) (resources : Option ResourceSet)
    (ca ca' : CertificateAuthority) (authority : VersionedId) : List AuthorityEvent :=
  .ofCertificate authority key resources ::
    ((if (ca.entriesMissing ca').isEmpty then []
      else [.aspaEntriesRemoved authority (ca.entriesMissing ca')]) ++
    if (ca.routesMissing ca').isEmpty then []
    else [.ignoredRoutesRemoved authority (ca.routesMissing ca')])

/-- Entries that are missing are listed by customer, each once. -/
theorem entriesMissing_ascending (ca ca' : CertificateAuthority) :
    (ca.entriesMissing ca').Pairwise fun e f => compare e.1 f.1 = .lt :=
  ca.aspa.ascending.filter _

theorem routesMissing_ascending (ca ca' : CertificateAuthority) :
    (ca.routesMissing ca').Pairwise fun r t => compare r t = .lt :=
  (List.pairwise_map.mpr ca.alerts.ignored.ascending).filter _

/-- The authority with other certificates. -/
def withCertificates (certificates : OrdMap String ResourceSet) (ca : CertificateAuthority) :
    CertificateAuthority :=
  { ca with incoming := certificates }

section Maintained

variable {ca ca' : CertificateAuthority} {certificates : OrdMap String ResourceSet}
  (hafter : ca' =
    Aggregate.withVersion (ca.version + 1) (ca.withCertificates certificates).maintained)

include hafter

/-- The authority afterwards, field by field. -/
theorem eq_of_maintained : ca' = { ca with
    version := ca.version + 1
    incoming := certificates
    configurationUpdated :=
      ca.configurationUpdated || !(ca.withCertificates certificates).lapsedEntries.isEmpty
    roaAlerts := ca.roaAlerts.map fun alerts =>
      alerts.retainOverlapping (ca.withCertificates certificates).certified
    aspa := ca.aspa.filter fun customer _ =>
      (ca.withCertificates certificates).certified.containsAsn customer } := by
  rw [hafter, maintained_eq]
  rfl

theorem aspa_of_maintained : ca'.aspa = ca.aspa.filter fun customer _ =>
    (ca.withCertificates certificates).certified.containsAsn customer := by
  rw [eq_of_maintained hafter]

theorem ignored_of_maintained : ca'.alerts.ignored = ca.alerts.ignored.filter fun route _ =>
    (ca.withCertificates certificates).certified.overlaps route.pfx := by
  rw [eq_of_maintained hafter, alerts, alerts]
  cases ca.roaAlerts <;> rfl

/-- What lapses is what is missing afterwards. -/
theorem lapsedEntries_of_maintained :
    (ca.withCertificates certificates).lapsedEntries = ca.entriesMissing ca' := by
  refine List.filter_congr fun e he => ?_
  rw [aspa_of_maintained hafter, OrdMap.contains_filter_of_mem (m := ca.aspa) he]

theorem lapsedRoutes_of_maintained :
    (ca.withCertificates certificates).dropLapsedEntries.lapsedRoutes = ca.routesMissing ca' := by
  have hlapsed : (ca.withCertificates certificates).dropLapsedEntries.lapsedRoutes =
      ca.alerts.ignored.toList.filter fun route =>
        !(ca.withCertificates certificates).certified.overlaps route.pfx := by
    rw [lapsedRoutes, certified_dropLapsedEntries, dropLapsedEntries_roaAlerts, alerts]
    have hsame : (ca.withCertificates certificates).roaAlerts = ca.roaAlerts := rfl
    rw [hsame]
    cases ca.roaAlerts <;> rfl
  rw [hlapsed]
  refine List.filter_congr fun route hroute => ?_
  obtain ⟨e, he, rfl⟩ := List.mem_map.mp hroute
  rw [ignored_of_maintained hafter, OrdMap.contains_filter_of_mem he]

theorem lapseEvents_of_maintained (authority : VersionedId) (key : String)
    (resources : Option ResourceSet) :
    .ofCertificate authority key resources ::
        (ca.withCertificates certificates).lapseEvents authority =
      ca.recertificationEvents key resources ca' authority := by
  rw [lapseEvents, lapsedEntries_of_maintained hafter, lapsedRoutes_of_maintained hafter,
    recertificationEvents]

/-- **Maintenance after a change of certificates** does what it is to do. -/
theorem recertified_of_maintained {key : String} {resources : Option ResourceSet}
    (hkeys : ∀ k, certificates.find? k = if k = key then resources else ca.incoming.find? k)
    (hord : ∀ certificate ∈ certificates.values, certificate.Ordered) :
    ca.Recertified key resources ca' := by
  have hfields := eq_of_maintained hafter
  have hincoming : ca'.incoming = certificates := by rw [hfields]
  -- the certificates that were looked through are those that the authority has afterwards
  have hcertifies : ∀ customer, (ca.withCertificates certificates).certified.containsAsn customer =
      true ↔ ca'.Certifies customer := by
    unfold Certifies
    rw [hincoming]
    exact containsAsn_certified hord
  have hreaches : ∀ route, (ca.withCertificates certificates).certified.overlaps route.pfx = true ↔
      ca'.Reaches route := by
    unfold Reaches
    rw [hincoming]
    exact overlaps_certified hord
  refine ⟨fun k => hincoming ▸ hkeys k, fun route => ?_, fun customer providers => ?_, ?_, ?_⟩
  · rw [ignored_of_maintained hafter, OrdSet.toList_filter, List.mem_filter, hreaches]
  · rw [aspa_of_maintained hafter, OrdMap.find?_filter, Option.filter_eq_some_iff, hcertifies]
  · rw [← lapsedEntries_of_maintained hafter, hfields]
    simp
  · have halerts : (ca.roaAlerts.map fun alerts =>
        alerts.retainOverlapping (ca.withCertificates certificates).certified) =
          ca.roaAlerts.map fun alerts => { alerts with ignored := ca'.alerts.ignored } := by
      rw [ignored_of_maintained hafter, alerts]
      cases ca.roaAlerts <;> rfl
    rw [← halerts, hfields]

end Maintained

end CertificateAuthority

/-! ### Commands -/

namespace Command

/-- The key whose certificate a command is about, and the certificate that there is to be. -/
def certificate? (c : Command) : Option (String × Option ResourceSet) :=
  match c.details with
  | .updateIncomingCertificate key resources => some (key, some resources)
  | .revokeIncomingCertificate key => some (key, none)
  | _ => none

variable {c : Command} {key : String} {resources : Option ResourceSet} {ca : CertificateAuthority}
  {change : Change}

/-- There is nothing to do about the certificates of an authority that is not there. -/
theorem effect_none_ne_ok_of_certificate? (h : c.certificate? = some (key, resources))
    (uuid : Uuid) :
    (c.effect uuid none).outcome ≠ .ok change := by
  intro heffect
  obtain ⟨name, hd, -⟩ := effect_none_eq_ok heffect
  rw [certificate?, hd] at h
  exact absurd h (by simp)

/-- **The change that a command about certificates makes** is maintenance after the change of one
certificate. -/
theorem Changes.of_certificate? (h : c.Changes ca change)
    (hcertificate : c.certificate? = some (key, resources)) (hc : c.IsOrdered)
    (hca : ∀ certificate ∈ ca.incoming.values, certificate.Ordered) :
    ∃ certificates : OrdMap String ResourceSet,
      (∀ k, certificates.find? k = if k = key then resources else ca.incoming.find? k) ∧
      (∀ certificate ∈ certificates.values, certificate.Ordered) ∧
      change = ⟨some (ca.withCertificates certificates).maintained,
        .ofCertificate ⟨c.authority.id, ca.version + 1⟩ key resources ::
          (ca.withCertificates certificates).lapseEvents ⟨c.authority.id, ca.version + 1⟩⟩ := by
  rw [certificate?] at hcertificate
  cases h with
  | @issued key' issued hd =>
    rw [hd] at hcertificate
    obtain ⟨rfl, rfl⟩ := Prod.mk.inj (Option.some.inj hcertificate)
    rw [IsOrdered, hd] at hc
    refine ⟨ca.incoming.insert key' issued, fun k => ?_,
      CertificateAuthority.ordered_setIncoming hca hc, rfl⟩
    split
    · next hk => rw [hk, OrdMap.find?_insert_self]
    · next hk => exact OrdMap.find?_insert_of_ne _ hk _
  | @revoked key' hd =>
    rw [hd] at hcertificate
    obtain ⟨rfl, rfl⟩ := Prod.mk.inj (Option.some.inj hcertificate)
    refine ⟨ca.incoming.erase key', fun k => ?_,
      CertificateAuthority.ordered_removeIncoming hca key', rfl⟩
    split
    · next hk => rw [hk, OrdMap.find?_erase_self]
    · next hk => exact OrdMap.find?_erase_of_ne _ hk
  | subscribed hd | unsubscribed hd | ignored hd | configured hd | deleted hd =>
    rw [hd] at hcertificate
    exact absurd hcertificate (by simp)

end Command

namespace Engine

variable {X : Interface} {S : Type} {outside : Outside X S} {e : Engine X} {levels : Nat}
  {c : Command} {w w' : World S} {status : CommandStatus} {key : String}
  {resources : Option ResourceSet}

/-- **What a command about certificates does**, if it has an effect and all certificates are lists
of blocks with their ends in order: the authority is recertified, other authorities are left alone,
and one record is added at the end, with the events about the certificate and about what is missing
afterwards. -/
theorem execute_recertified (he : e.IsStandard) (hc : c.IsOrdered)
    (hw : ∀ ca, w.store.get? c.authority.id = some ca →
      ∀ certificate ∈ ca.incoming.values, certificate.Ordered)
    (hcertificate : c.certificate? = some (key, resources))
    (h : World.execute outside e levels c w = some (.ok status, w'))
    (heffect : status.hasEffect = true) :
    ∃ ca ca', w.store.get? c.authority.id = some ca ∧ w'.store.get? c.authority.id = some ca' ∧
      ca.Recertified key resources ca' ∧
      (∀ id, id ≠ c.authority.id → w'.store.get? id = w.store.get? id) ∧
      status.authority = ⟨c.authority.id, ca'.version⟩ ∧
      w'.audit.records = w.audit.records ++ [
        { id := w.audit.nextId
          executedAt := w.now
          authority := status.authority
          actor := c.actor.name
          type := c.type
          group := c.group
          summary := c.summary
          events := Text.join "\n"
            ((ca.recertificationEvents key resources ca' status.authority).map AuthorityEvent.text)
          deletedAt := none }] ∧
      w'.audit.nextId = w.audit.nextId + 1 ∧
      (ca.entriesMissing ca').Pairwise (fun e f => compare e.1 f.1 = .lt) ∧
      (ca.routesMissing ca').Pairwise (fun r t => compare r t = .lt) := by
  cases he.outcome h with
  | idle => exact absurd heffect (by simp)
  | @effective uuid change _ _ _ hchange haggregates haudit =>
    cases hfound : w.store.get? c.authority.id with
    | none =>
      rw [hfound] at hchange
      exact absurd hchange (Command.effect_none_ne_ok_of_certificate? hcertificate uuid)
    | some ca =>
      rw [hfound] at hchange haggregates haudit
      obtain ⟨certificates, hkeys, hord, rfl⟩ :=
        (Command.effect_some_eq_ok hchange).of_certificate? hcertificate hc (hw ca hfound)
      -- what is written is the maintained authority at the version after the one found
      have hput : w'.store.get? c.authority.id = some (Aggregate.withVersion (ca.version + 1)
          (ca.withCertificates certificates).maintained) := by
        rw [Store.get?, haggregates]
        exact OrdMap.find?_insert_self _ _ _
      -- a change of certificates is an event, so it is recorded whoever asked for it
      have hrecorded : w'.audit = (w.audit.add w.now ⟨c.authority.id, ca.version + 1⟩ c
          ((.ofCertificate ⟨c.authority.id, ca.version + 1⟩ key resources ::
            (ca.withCertificates certificates).lapseEvents
              ⟨c.authority.id, ca.version + 1⟩).map AuthorityEvent.text)).2 :=
        haudit.trans (if_pos (Or.inr rfl))
      refine ⟨ca, _, rfl, hput, CertificateAuthority.recertified_of_maintained rfl hkeys hord,
        fun id hid => ?_, rfl, ?_, ?_, ca.entriesMissing_ascending _, ca.routesMissing_ascending _⟩
      · rw [Store.get?, haggregates]
        exact OrdMap.find?_insert_of_ne _ hid _
      · rw [hrecorded, ← CertificateAuthority.lapseEvents_of_maintained rfl]
        rfl
      · rw [hrecorded]
        rfl

/-- An authority with a certificate for each of two keys, an ASPA entry for a customer in each, and
a suppressed announcement in the first. -/
def twiceCertified : CertificateAuthority where
  id := 1
  version := 4
  name := "authority"
  uuid := Uuid.ofNat 0
  incoming := OrdMap.ofList [("first", ⟨[⟨64496, 64511⟩], [⟨0x0a000000, 0x0affffff⟩], []⟩),
    ("second", ⟨[⟨65536, 65551⟩], [], []⟩)]
  configurationUpdated := false
  roaAlerts := some
    ⟨none, true, OrdSet.ofMembers [⟨⟨64500, by decide⟩, Prefix.containing .ipv4 0x0a000000 8⟩]⟩
  aspa := OrdMap.ofList [(⟨64500, by decide⟩, OrdMap.empty), (⟨65536, by decide⟩, OrdMap.empty)]

/-- The world with this authority and nothing else. -/
def withTwiceCertified : World Unit :=
  { World.initial .standard () with
    store := ⟨OrdMap.ofList [(1, twiceCertified)], OrdMap.empty, 2, 1⟩ }

/-- The first certificate is revoked, and takes an entry and an announcement with it. -/
theorem execute_recertified_revoked :
    ∃ status w' ca', World.execute Outside.none (Engine.standard .standard) 2
        ⟨⟨1, 0⟩, .system, .revokeIncomingCertificate "first"⟩ withTwiceCertified =
          some (.ok status, w') ∧
      w'.store.get? 1 = some ca' ∧ status = ⟨true, ⟨1, 5⟩⟩ ∧
      twiceCertified.Recertified "first" none ca' ∧
      (twiceCertified.entriesMissing ca').map (fun e => e.1.toNat) = [64500] ∧
      (twiceCertified.routesMissing ca').length = 1 := by
  have hresult : (World.execute Outside.none (Engine.standard .standard) 2
      ⟨⟨1, 0⟩, .system, .revokeIncomingCertificate "first"⟩ withTwiceCertified).map (fun p =>
        (p.1.toOption, (p.2.store.get? 1).map fun ca' =>
          ((twiceCertified.entriesMissing ca').map fun e => e.1.toNat,
            (twiceCertified.routesMissing ca').length))) =
        some (some ⟨true, ⟨1, 5⟩⟩, some ([64500], 1)) := by
    decide +kernel
  obtain ⟨⟨r, w'⟩, h, hsummary⟩ := Option.map_eq_some_iff.mp hresult
  obtain ⟨hr, hget⟩ := Prod.mk.inj hsummary
  obtain ⟨found, hfound, hmissing⟩ := Option.map_eq_some_iff.mp hget
  cases r with
  | error err => exact absurd hr (by simp [Except.toOption])
  | ok status =>
    obtain rfl : status = ⟨true, ⟨1, 5⟩⟩ := Option.some.inj hr
    have hordered : ∀ ca, withTwiceCertified.store.get? 1 = some ca →
        ∀ certificate ∈ ca.incoming.values, certificate.Ordered := by
      rintro ca ⟨⟩
      decide
    obtain ⟨ca, ca', ⟨⟩, hca', hrecertified, -⟩ := execute_recertified
      (c := ⟨⟨1, 0⟩, .system, .revokeIncomingCertificate "first"⟩) ⟨rfl, rfl⟩ trivial hordered
      rfl h rfl
    obtain rfl : found = ca' := Option.some.inj (hfound.symm.trans hca')
    obtain ⟨hentries, hroutes⟩ := Prod.mk.inj hmissing
    exact ⟨_, w', found, h, hfound, rfl, hrecertified, hentries, hroutes⟩

end Engine

end RpkiAuthority
