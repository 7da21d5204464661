import RpkiAuthority.Authority.Basic

/-!
# Events of an authority

An event says what happened to one authority. Its description is the sentence kept in the history.
-/

namespace RpkiAuthority

/-- What happened to an authority. -/
inductive AuthorityEvent where
  /-- The parent issued a certificate for a key. -/
  | incomingCertificateUpdated (authority : VersionedId) (key : String) (resources : ResourceSet)
  /-- The parent revoked the certificate for a key. -/
  | incomingCertificateRevoked (authority : VersionedId) (key : String)
  /-- Suppressed announcements were removed because the resources changed. -/
  | ignoredRoutesRemoved (authority : VersionedId) (removed : List AnnouncedRoute)
  /-- ASPA entries were removed because the resources changed. -/
  | aspaEntriesRemoved (authority : VersionedId) (removed : List (Asn × AspaProviders))
  deriving DecidableEq

namespace AuthorityEvent

/-- The authority that the event belongs to. -/
def authority : AuthorityEvent → VersionedId
  | incomingCertificateUpdated a _ _ | incomingCertificateRevoked a _
  | ignoredRoutesRemoved a _ | aspaEntriesRemoved a _ => a

/-- The description kept in the history. -/
def text : AuthorityEvent → String
  | incomingCertificateUpdated _ key resources =>
    "Updated incoming certificate for key " ++ key ++ " with resources " ++ resources.text ++ "."
  | incomingCertificateRevoked _ key => "Revoked incoming certificate for key " ++ key ++ "."
  | ignoredRoutesRemoved _ removed =>
    "Updated suppressed routes for ROA alerts due to changed resources, deletions: " ++
      (if removed.isEmpty then "none" else Text.join "; " (removed.map AnnouncedRoute.text)) ++ "."
  | aspaEntriesRemoved _ removed =>
    "Updated ASPA configuration due to changed resources, removed customer ASNs: " ++
      Text.join "; " (removed.map fun e => e.2.text e.1) ++ "."

end AuthorityEvent

end RpkiAuthority
