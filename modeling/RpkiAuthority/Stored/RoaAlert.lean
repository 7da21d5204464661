import RpkiAuthority.RoaAlert.Configuration
import RpkiAuthority.Stored.Resource

/-!
# Stored ROA alerts
-/

namespace RpkiAuthority.Stored

/-- The stored name of a frequency. -/
def frequencyName : AlertFrequency → String
  | .daily => "DAILY"
  | .weekly => "WEEKLY"

/-- The frequency with a stored name. -/
def frequencyNamed : String → Option AlertFrequency
  | "DAILY" => some .daily
  | "WEEKLY" => some .weekly
  | _ => none

instance : Stored AlertFrequency where
  store f := .text (frequencyName f)
  restore := restoreName frequencyNamed

/-- The stored name of a validity. -/
def validityName : RouteValidity → String
  | .invalidAsn => "INVALID_ASN"
  | .invalidLength => "INVALID_LENGTH"
  | .unknown => "UNKNOWN"

/-- The validity with a stored name. -/
def validityNamed : String → Option RouteValidity
  | "INVALID_ASN" => some .invalidAsn
  | "INVALID_LENGTH" => some .invalidLength
  | "UNKNOWN" => some .unknown
  | _ => none

instance : Stored RouteValidity where
  store v := .text (validityName v)
  restore := restoreName validityNamed

instance : Stored AlertSubscription where
  store s := .record [("emails", store s.emails), ("route_validity_states", store s.states),
    ("frequency", store s.frequency)]
  restore := restoreRecord ["emails", "route_validity_states", "frequency"] fun m =>
    AlertSubscription.mk <$> m.field "emails" <*> m.field "route_validity_states" <*>
      m.field "frequency"

instance : Stored AlertConfiguration where
  store c := .record [("subscription", store c.subscription),
    ("notify_on_roa_changes", store c.notifyOnRoaChanges), ("ignored", store c.ignored)]
  restore := restoreRecord ["subscription", "notify_on_roa_changes", "ignored"] fun m =>
    AlertConfiguration.mk <$> m.optionalField "subscription" <*>
      m.field "notify_on_roa_changes" <*> m.field "ignored"

end RpkiAuthority.Stored
