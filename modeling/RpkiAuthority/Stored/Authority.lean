import RpkiAuthority.Authority.Event
import RpkiAuthority.Stored.Aspa
import RpkiAuthority.Stored.History
import RpkiAuthority.Stored.RoaAlert

/-!
# Stored authorities and events

An event is stored as an object that names its type beside its fields. It is known what to read only
once the type is found, which may be the last member, so everything has to be kept until then: the
names of members are text by that time, whatever they were written as, and no longer read as AS
numbers. Providers inside an event are therefore refused unless there are none.
-/

namespace RpkiAuthority.Stored

instance : Stored Uuid where
  store u := .text u.text
  restore := restoreText fun s => .ofOption () (Uuid.read s.toList)

instance : Stored CertificateAuthority where
  store ca := .record [("id", .nat ca.id), ("version", .nat ca.version), ("name", store ca.name),
    ("uuid", store ca.uuid), ("incoming", store ca.incoming),
    ("configuration_updated", store ca.configurationUpdated), ("roa_alerts", store ca.roaAlerts),
    ("aspa", store ca.aspa)]
  restore := restoreRecord
    ["id", "version", "name", "uuid", "incoming", "configuration_updated", "roa_alerts", "aspa"]
    fun m => CertificateAuthority.mk <$> m.fieldBy "id" restoreNat64 <*>
      m.fieldBy "version" restoreNat64 <*> m.field "name" <*> m.field "uuid" <*>
      m.field "incoming" <*> m.field "configuration_updated" <*> m.optionalField "roa_alerts" <*>
      m.field "aspa"

/-! ### Events -/

/-- How deep arrays and objects may be nested in the stored form of an event. -/
def eventDepth : Nat := 127

/-- Restores providers that were kept before it was known what they are. -/
def restoreKeptProviders : JsonValue → Restored AspaProviders
  | .object [] => .ok OrdMap.empty
  | _ => .refuse

/-- Restores a removed entry that was kept before it was known what it is. -/
def restoreKeptEntry : JsonValue → Restored (Asn × AspaProviders)
  | .array [customer, providers] => do
    return (← restore customer, ← restoreKeptProviders providers)
  | _ => .refuse

/-- Restores removed entries that were kept before it was known what they are. -/
def restoreKeptEntries : JsonValue → Restored (List (Asn × AspaProviders))
  | .array entries => entries.mapM restoreKeptEntry
  | _ => .refuse

/-- The fields of an event of a type. -/
def eventFields (m : Members) : String → Option (Fields AuthorityEvent)
  | "incoming_certificate_updated" => some <|
    .incomingCertificateUpdated <$> m.field "ca" <*> m.field "key" <*> m.field "resources"
  | "incoming_certificate_revoked" => some <|
    .incomingCertificateRevoked <$> m.field "ca" <*> m.field "key"
  | "roa_alert_ignored_announced_routes_updated" => some <|
    .ignoredRoutesRemoved <$> m.field "ca" <*> m.field "removed"
  | "aspa_configuration_updated_due_to_changed_resources" => some <|
    .aspaEntriesRemoved <$> m.field "ca" <*> m.fieldBy "removed" restoreKeptEntries
  | _ => none

instance : Stored AuthorityEvent where
  store
    | .incomingCertificateUpdated ca key resources =>
      .record [("type", .text "incoming_certificate_updated"), ("ca", store ca),
        ("key", store key), ("resources", store resources)]
    | .incomingCertificateRevoked ca key =>
      .record [("type", .text "incoming_certificate_revoked"), ("ca", store ca),
        ("key", store key)]
    | .ignoredRoutesRemoved ca removed =>
      .record [("type", .text "roa_alert_ignored_announced_routes_updated"), ("ca", store ca),
        ("removed", store removed)]
    | .aspaEntriesRemoved ca removed =>
      .record [("type", .text "aspa_configuration_updated_due_to_changed_resources"),
        ("ca", store ca),
        ("removed", .array (removed.map fun e => .array [store e.1, store e.2]))]
  restore v :=
    if v.isPlain eventDepth then
      match v with
      | .object members =>
        let m : Members := ⟨true, members⟩
        match m.ofField "type" with
        | [(_, .string ⟨some type, _⟩)] =>
          match eventFields m type with
          | some fields => fields.finish
          | none => .refuse
        | _ => .refuse
      | _ => .refuse
    else .refuse

end RpkiAuthority.Stored
