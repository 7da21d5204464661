import RpkiAuthority.Engine.Action

/-!
# Handlers of commands

There is a handler for every type of command. Each locks the authority before it looks at it for the
first time, and changes it last, after everything was checked.
-/

namespace RpkiAuthority.Handlers

variable {X : Interface}

/-- The error of a handler that is given a command of another type. -/
def unexpected (c : Command) : CommandError :=
  .custom ("handler received unexpected command " ++ c.text)

/-- Creates an authority. -/
def create : Handler X := fun c => do
  match c.details with
  | .createCertificateAuthority name =>
    let id := c.authority.id
    Action.lock id .exclusive
    let uuid ← Action.ask .freshUuid
    Action.insert (CertificateAuthority.create id name uuid)
    Action.log .info ("Created CA '" ++ name ++ "' with id " ++ id.repr)
  | _ => throw (unexpected c)

/-- Stores the certificate for a key. -/
def updateIncoming : Handler X := fun c => do
  match c.details with
  | .updateIncomingCertificate key resources =>
    let id := c.authority.id
    Action.lock id .exclusive
    let ca ← Action.get id
    if ca.incoming.find? key = some resources then throw .noEffect
    Action.update id (CertificateAuthority.setIncoming key resources)
    let authority ← Action.versionedId id
    Action.publish (.incomingCertificateUpdated authority key resources)
  | _ => throw (unexpected c)

/-- Removes the certificate for a key. -/
def revokeIncoming : Handler X := fun c => do
  match c.details with
  | .revokeIncomingCertificate key =>
    let id := c.authority.id
    Action.lock id .exclusive
    let ca ← Action.get id
    if ca.incoming.find? key = none then throw .noEffect
    Action.update id (CertificateAuthority.removeIncoming key)
    let authority ← Action.versionedId id
    Action.publish (.incomingCertificateRevoked authority key)
  | _ => throw (unexpected c)

/-- Subscribes an address to alerts. -/
def subscribe : Handler X := fun c => do
  match c.details with
  | .subscribeToRoaAlert email states frequency =>
    if (Text.trimmed email.toList).isEmpty then throw (.invalidCommand "email is required")
    if states.isEmpty then throw (.invalidCommand "route validity states are required")
    let id := c.authority.id
    Action.lock id .exclusive
    Action.update id fun ca => ca.setAlerts (ca.alerts.subscribe email states frequency)
  | _ => throw (unexpected c)

/-- The alerts after an address was unsubscribed, with a new choice about changes of ROAs. -/
def unsubscribed (email : String) (notify : Bool) (a : AlertConfiguration) : AlertConfiguration :=
  { a.unsubscribe email with notifyOnRoaChanges := notify }

/-- Unsubscribes an address from alerts. It is no error if it was not subscribed. -/
def unsubscribe : Handler X := fun c => do
  match c.details with
  | .unsubscribeFromRoaAlert email notify =>
    let id := c.authority.id
    Action.lock id .exclusive
    let ca ← Action.get id
    if ca.alerts.subscription.isNone then throw .noEffect
    Action.update id fun ca => ca.setAlerts (unsubscribed email notify ca.alerts)
    if !ca.alerts.isSubscribed email then
      Action.log .info
        ("Trying to unsubscribe the address " ++ email ++ " that is not subscribed")
  | _ => throw (unexpected c)

/-- Changes the suppressed announcements. -/
def updateIgnored : Handler X := fun c => do
  match c.details with
  | .updateRoaAlertIgnoredAnnouncedRoutes additions deletions =>
    let id := c.authority.id
    Action.lock id .exclusive
    let ca ← Action.get id
    let updated := ca.alerts.update additions deletions
    if updated = ca.alerts then throw .noEffect
    Action.update id (CertificateAuthority.setAlerts updated)
  | _ => throw (unexpected c)

/-- The error for entries that repeat an AS number. -/
def repeated (r : AspaRepetition) : CommandError :=
  .duplicateResource ("duplicate ASN " ++ r.asn.text ++ " in ASPA configuration")

/-- Whether a customer is among its own providers. -/
def isOwnProvider (e : AspaEntry) : Bool := e.providers.any fun p => p.asn == e.customer

/-- The error for a customer among its own providers. -/
def ownProvider (e : AspaEntry) : CommandError :=
  .duplicateResource <|
    "customer " ++ e.customer.text ++ " appears in provider set [" ++
      Text.join ", " (e.providers.map fun p => p.asn.text) ++ "]"

/-- The providers that are reserved for private use, in the order they were submitted. -/
def privateProviders (entries : List AspaEntry) : List Asn :=
  (entries.flatMap fun e => e.providers.map AspaProvider.asn).filter
    ResourceSet.privateAsns.containsAsn

/-- Checks that all customers are held, that none is its own provider, and that no provider is
reserved for private use. -/
def checkEntries (certified : ResourceSet) (entries : List AspaEntry) : Except CommandError Unit :=
  let missing := (ResourceSet.ofAsns (entries.map AspaEntry.customer)).difference certified
  if !missing.isEmpty then .error (.notHolder missing)
  else
    match entries.find? isOwnProvider with
    | some e => .error (ownProvider e)
    | none =>
      if (privateProviders entries).isEmpty then .ok ()
      else .error (.privateAsnsUsed (privateProviders entries))

/-- The configuration that an update asks for, if it is allowed. -/
def newConfiguration (ca : CertificateAuthority) (ifMatch : Option String)
    (entries : List AspaEntry) : Except CommandError AspaConfiguration :=
  match ifMatch with
  | none => .error .preconditionRequired
  | some tag =>
    if tag ≠ ca.aspa.entityTag then .error .entityTagDoesNotMatch
    else
      match AspaConfiguration.ofEntries entries with
      | .error r => .error (repeated r)
      | .ok updated =>
        match checkEntries ca.certified entries with
        | .error e => .error e
        | .ok () => if updated = ca.aspa then .error .noEffect else .ok updated

/-- Replaces the ASPA configuration. -/
def updateAspa : Handler X := fun c => do
  match c.details with
  | .updateAspaConfiguration ifMatch entries _ =>
    let id := c.authority.id
    Action.lock id .exclusive
    let ca ← Action.get id
    let updated ← ExceptT.mk (pure (newConfiguration ca ifMatch entries))
    Action.update id fun ca => (ca.setAspa updated).markUpdated
  | _ => throw (unexpected c)

/-- Deletes an authority. -/
def delete : Handler X := fun c => do
  let id := c.authority.id
  Action.lock id .exclusive
  let ca ← Action.remove id
  Action.log .warn <|
    "Deleting CA '" ++ ca.name ++ "' (id = " ++ id.repr ++ ", uuid = " ++ ca.uuid.text ++ ")"
  Action.deleteRecords id

/-- The handler for each type of command. -/
def standard : CommandType → Handler X
  | .createCertificateAuthority => create
  | .updateIncomingCertificate => updateIncoming
  | .revokeIncomingCertificate => revokeIncoming
  | .subscribeToRoaAlert => subscribe
  | .unsubscribeFromRoaAlert => unsubscribe
  | .updateRoaAlertIgnoredAnnouncedRoutes => updateIgnored
  | .updateAspaConfiguration => updateAspa
  | .deleteCertificateAuthority => delete

end RpkiAuthority.Handlers
