import RpkiAuthority.Aspa.Configuration
import RpkiAuthority.Stored.Resource

/-!
# Stored ASPA configuration
-/

namespace RpkiAuthority.Stored

/-- The stored name of a limit. -/
def limitName : AspaLimit → String
  | .any => "ANY"
  | .ipv4 => "IPv4"
  | .ipv6 => "IPv6"

/-- The limit with a stored name. -/
def limitNamed : String → Option AspaLimit
  | "ANY" => some .any
  | "IPv4" => some .ipv4
  | "IPv6" => some .ipv6
  | _ => none

instance : Stored AspaLimit where
  store l := .text (limitName l)
  restore := restoreName limitNamed

/-- A provider without a limit is one for all announcements. -/
instance : Stored AspaProvider where
  store p := .record [("asn", store p.asn), ("afi_limit", store p.limit)]
  restore := restoreRecord ["asn", "afi_limit"] fun m =>
    AspaProvider.mk <$> m.field "asn" <*> m.fieldWithDefault "afi_limit" .any

instance : Stored AspaEntry where
  store e := .record [("customer", store e.customer), ("providers", store e.providers)]
  restore := restoreRecord ["customer", "providers"] fun m =>
    AspaEntry.mk <$> m.field "customer" <*> m.field "providers"

instance : Stored AspaChange where
  store c := .record [("added", store c.added), ("deleted", store c.deleted)]
  restore := restoreRecord ["added", "deleted"] fun m =>
    AspaChange.mk <$> m.field "added" <*> m.field "deleted"

end RpkiAuthority.Stored
