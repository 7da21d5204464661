import RpkiAuthority.Engine.Action

/-!
# Keeping configuration within the resources

Two listeners follow the certificates of an authority. When one was issued or revoked, they remove
what the resources of all certificates together no longer support: suppressed announcements that
share no address with them, and ASPA entries for customers that are not among them. What they
remove is noted as an event of the running command, but not delivered to anyone.
-/

namespace RpkiAuthority.Maintenance

variable {X : Interface}

/-- The authority whose certificates an event is about. -/
def certificatesOf : AuthorityEvent → Option AggregateId
  | .incomingCertificateUpdated a _ _ | .incomingCertificateRevoked a _ => some a.id
  | .ignoredRoutesRemoved _ _ | .aspaEntriesRemoved _ _ => none

/-- Removes suppressed announcements outside of the resources. -/
def roaAlerts : Listener X := fun event => do
  match certificatesOf event with
  | none => return
  | some id =>
    let ca ← Action.get id
    match ca.roaAlerts with
    | none => return
    | some alerts =>
      let removed := alerts.outside ca.certified
      if removed.isEmpty then return
      Action.update id (CertificateAuthority.setAlerts (alerts.retainOverlapping ca.certified))
      let authority ← Action.versionedId id
      Action.record (.ignoredRoutesRemoved authority removed)

/-- What is noted in the log when ASPA entries are removed. -/
def removalMessage (count : Nat) (name : String) : String :=
  "Removing ASPA configuration for " ++ count.repr ++ " customer(s) of CA '" ++ name ++
    "' no longer held"

/-- Removes ASPA entries for customers that are not among the resources. -/
def aspa : Listener X := fun event => do
  match certificatesOf event with
  | none => return
  | some id =>
    let ca ← Action.get id
    let (kept, removed) := AspaConfiguration.splitHeld ca.aspa ca.certified
    if removed.isEmpty then return
    Action.log .info (removalMessage removed.length ca.name)
    Action.update id fun ca => (ca.setAspa kept).markUpdated
    let authority ← Action.versionedId id
    Action.record (.aspaEntriesRemoved authority removed)

/-- Both listeners in the order in which they are subscribed. -/
def standard : List (Listener X) := [roaAlerts, aspa]

end RpkiAuthority.Maintenance
