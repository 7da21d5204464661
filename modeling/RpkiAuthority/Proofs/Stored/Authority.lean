import RpkiAuthority.Proofs.Stored.Kept
import RpkiAuthority.Proofs.Text.Uuid
import RpkiAuthority.Stored.Authority

/-!
# Stored authorities are kept

Every part of an authority is kept, layer by layer: the AS numbers that are keys of stored maps are
told from their digits (`Stored.readAsnKey_asnKey`), states by their names, and the rest by what
lists, sets, maps and records keep. What storage cannot hold are numbers of more than 64 bits, and
resources that are not in normal form may come back changed; apart from these an authority is
restored as it was (`CertificateAuthority.Storable.restored_from_text`).
-/

namespace RpkiAuthority

open Text

namespace Stored

/-! ### Maps -/

/-- **The AS number of a member** is told from its name. -/
theorem readAsnKey_asnKey (a : Asn) : readAsnKey (JsonString.of (asnKey a)).reread = some a := by
  have hdigits : ∀ c ∈ (asnKey a).toList, Json.isEscaped c = false := by
    intro c hc
    rw [asnKey] at hc
    exact Json.isEscaped_of_isAlphanum (isAlphanum_of_mem_repr hc)
  have hread : Asn.ofDigits? (asnKey a).toList = some a := a.ofDigits?_repr
  rw [Json.reread_of hdigits]
  simp [readAsnKey, JsonString.of, hread]

section

variable {α : Type} [Stored α]

theorem kept_asnMap {m : OrdMap Asn α} (h : ∀ a ∈ m.values, Kept a) : Kept m :=
  restoreMap_storeMap readAsnKey_asnKey h

theorem kept_textMap {m : OrdMap String α} (h : ∀ a ∈ m.values, Kept a) : Kept m :=
  restoreMap_storeMap (fun _ => rfl) h

end

theorem kept_limit (l : AspaLimit) : Kept l := by
  cases l <;> exact restoreName_text rfl

theorem kept_providers (m : AspaProviders) : Kept m := kept_asnMap fun l _ => kept_limit l

theorem kept_aspa (m : AspaConfiguration) : Kept m := kept_asnMap fun p _ => kept_providers p

/-! ### Alerts -/

theorem kept_frequency (f : AlertFrequency) : Kept f := by
  cases f <;> exact restoreName_text rfl

theorem kept_validity (v : RouteValidity) : Kept v := by
  cases v <;> exact restoreName_text rfl

theorem kept_route (r : AnnouncedRoute) : Kept r := by
  let members := [("asn", store r.asn), ("prefix", store r.pfx)]
  have hnames : (members.map Prod.fst).Nodup := by simp [members]
  have hasn : ((rereadMembers members).field "asn").Gives r.asn :=
    field_rereadMembers hnames (by simp [members]) (kept_asn r.asn)
  have hprefix : ((rereadMembers members).field "prefix").Gives r.pfx :=
    field_rereadMembers hnames (by simp [members]) (kept_pfx r.pfx)
  exact restoreRecord_record ((hasn.map _).seq hprefix)

theorem kept_subscription (s : AlertSubscription) : Kept s := by
  let members := [("emails", store s.emails), ("route_validity_states", store s.states),
    ("frequency", store s.frequency)]
  have hnames : (members.map Prod.fst).Nodup := by simp [members]
  have hemails : ((rereadMembers members).field "emails").Gives s.emails :=
    field_rereadMembers hnames (by simp [members]) (kept_set fun e _ => kept_string e)
  have hstates : ((rereadMembers members).field "route_validity_states").Gives s.states :=
    field_rereadMembers hnames (by simp [members]) (kept_set fun v _ => kept_validity v)
  have hfrequency : ((rereadMembers members).field "frequency").Gives s.frequency :=
    field_rereadMembers hnames (by simp [members]) (kept_frequency s.frequency)
  exact restoreRecord_record (((hemails.map _).seq hstates).seq hfrequency)

theorem kept_alerts (c : AlertConfiguration) : Kept c := by
  let members := [("subscription", store c.subscription),
    ("notify_on_roa_changes", store c.notifyOnRoaChanges), ("ignored", store c.ignored)]
  have hnames : (members.map Prod.fst).Nodup := by simp [members]
  have hkept : Kept c.subscription := by
    cases c.subscription with
    | none => exact kept_none
    | some s => exact kept_some (kept_subscription s) (reread_record_ne_null _)
  have hsubscription :
      ((rereadMembers members).optionalField "subscription").Gives c.subscription :=
    optionalField_rereadMembers hnames (by simp [members]) hkept
  have hnotify :
      ((rereadMembers members).field "notify_on_roa_changes").Gives c.notifyOnRoaChanges :=
    field_rereadMembers hnames (by simp [members]) (kept_bool c.notifyOnRoaChanges)
  have hignored : ((rereadMembers members).field "ignored").Gives c.ignored :=
    field_rereadMembers hnames (by simp [members]) (kept_set fun r _ => kept_route r)
  exact restoreRecord_record (((hsubscription.map _).seq hnotify).seq hignored)

/-! ### Authorities -/

theorem kept_uuid (u : Uuid) : Kept u :=
  (restoreText_text (fun s => .ofOption () (Uuid.read s.toList)) u.text).trans
    (Reading.ofOption_eq_ok.mpr u.read_text)

end Stored

namespace CertificateAuthority

variable {ca : CertificateAuthority}

/-- **An authority that storage can hold**: its numbers have 64 bits, and its resources are in
normal form. -/
structure Storable (ca : CertificateAuthority) : Prop where
  id_le : ca.id ≤ max64
  version_le : ca.version ≤ max64
  canonical : ∀ s ∈ ca.incoming.values, s.Canonical

open Stored

theorem Storable.kept (h : ca.Storable) : Kept ca := by
  let members := [("id", .nat ca.id), ("version", .nat ca.version), ("name", store ca.name),
    ("uuid", store ca.uuid), ("incoming", store ca.incoming),
    ("configuration_updated", store ca.configurationUpdated), ("roa_alerts", store ca.roaAlerts),
    ("aspa", store ca.aspa)]
  have hnames : (members.map Prod.fst).Nodup := by simp [members]
  have halerts : Kept ca.roaAlerts := by
    cases ca.roaAlerts with
    | none => exact kept_none
    | some c => exact kept_some (kept_alerts c) (reread_record_ne_null _)
  have hincoming : Kept ca.incoming := kept_textMap fun s hs => kept_resources (h.canonical s hs)
  have hid : ((rereadMembers members).fieldBy "id" restoreNat64).Gives ca.id :=
    fieldBy_rereadMembers hnames (by simp [members]) (restoreNat64_nat h.id_le)
  have hversion : ((rereadMembers members).fieldBy "version" restoreNat64).Gives ca.version :=
    fieldBy_rereadMembers hnames (by simp [members]) (restoreNat64_nat h.version_le)
  have hname : ((rereadMembers members).field "name").Gives ca.name :=
    field_rereadMembers hnames (by simp [members]) (kept_string ca.name)
  have huuid : ((rereadMembers members).field "uuid").Gives ca.uuid :=
    field_rereadMembers hnames (by simp [members]) (kept_uuid ca.uuid)
  have hcertified : ((rereadMembers members).field "incoming").Gives ca.incoming :=
    field_rereadMembers hnames (by simp [members]) hincoming
  have hupdated :
      ((rereadMembers members).field "configuration_updated").Gives ca.configurationUpdated :=
    field_rereadMembers hnames (by simp [members]) (kept_bool ca.configurationUpdated)
  have hroa : ((rereadMembers members).optionalField "roa_alerts").Gives ca.roaAlerts :=
    optionalField_rereadMembers hnames (by simp [members]) halerts
  have haspa : ((rereadMembers members).field "aspa").Gives ca.aspa :=
    field_rereadMembers hnames (by simp [members]) (kept_aspa ca.aspa)
  exact restoreRecord_record <|
    (((((((hid.map _).seq hversion).seq hname).seq huuid).seq hcertified).seq hupdated).seq
      hroa).seq haspa

/-- **A stored authority is restored as it was**, from the text that is written for it. So its
resources and its entity tag are the same. -/
theorem Storable.restored_from_text (h : ca.Storable) :
    ∃ restored : CertificateAuthority,
      (Json.parse (Json.write (store ca))).map restore = some (.ok restored) ∧ restored = ca ∧
        restored.certified = ca.certified ∧ restored.aspa.entityTag = ca.aspa.entityTag :=
  ⟨ca, h.kept.restore_text, rfl, rfl, rfl⟩

/-- An authority with all its parts comes back: keys with characters to escape, a subscription,
suppressed announcements of both families, and customers with providers of every kind and with
none. -/
theorem Storable.restored_from_text_full :
    ∃ ca : CertificateAuthority, ca.Storable ∧ ca.version = max64 ∧
      ca.incoming.keys = ["a \"key\"\n", "key"] ∧ ca.roaAlerts ≠ none ∧
      (ca.aspa.find? ⟨1, by decide⟩).map OrdMap.values = some [.any, .ipv4, .ipv6] ∧
      ca.aspa.find? ⟨2, by decide⟩ = some OrdMap.empty ∧
      ∃ restored : CertificateAuthority,
        (Json.parse (Json.write (store ca))).map restore = some (.ok restored) ∧ restored = ca ∧
          restored.certified = ca.certified ∧ restored.aspa.entityTag = ca.aspa.entityTag := by
  let routes : List AnnouncedRoute :=
    [⟨⟨64496, by decide⟩, .containing .ipv4 (0x0a000000 <<< 96) 8⟩,
      ⟨⟨64497, by decide⟩, .containing .ipv6 (0xfc80 <<< 112) 9⟩]
  let providers : AspaProviders :=
    OrdMap.ofList [(⟨3, by decide⟩, .any), (⟨4, by decide⟩, .ipv4), (⟨5, by decide⟩, .ipv6)]
  let ca : CertificateAuthority :=
    { id := 1
      version := max64
      name := "authority \\ ü"
      uuid := .ofNat 0x0123456789abcdef0123456789abcdef
      incoming := OrdMap.ofList [("key", ResourceSet.privateUse), ("a \"key\"\n",
        ⟨[⟨64496, 64511⟩], [⟨0x0a000000 <<< 96, (0x0b000000 <<< 96) - 1⟩], [⟨1, 1⟩]⟩)]
      configurationUpdated := true
      roaAlerts := some ⟨some ⟨.ofMembers ["a@example.org"], .ofMembers [.unknown], .weekly⟩, true,
        .ofMembers routes⟩
      aspa := OrdMap.ofList [(⟨1, by decide⟩, providers), (⟨2, by decide⟩, OrdMap.empty)] }
  have h : ca.Storable := ⟨by decide, by decide, by decide⟩
  exact ⟨ca, h, rfl, by decide, nofun, by decide, by decide, h.restored_from_text⟩

end CertificateAuthority

end RpkiAuthority
