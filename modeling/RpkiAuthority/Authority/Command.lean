import RpkiAuthority.Authority.Basic
import RpkiAuthority.History.CommandType

/-!
# Commands

A command states what someone wants changed about an authority, and on which version of it this is
based. It is described in words for the history. A draft is a command written down before the state
it will meet is known: it may ask for the version and the entity tag found then.
-/

namespace RpkiAuthority

/-- Who sends a command. -/
structure Actor where
  name : String
  isUser : Bool
  deriving DecidableEq, Repr

namespace Actor

/-- A user. -/
def user (name : String) : Actor := ⟨name, true⟩

/-- The system itself. -/
def system : Actor := ⟨"rpkicore", false⟩

end Actor

/-- What a command asks for. -/
inductive CommandDetails where
  | createCertificateAuthority (name : String)
  | updateIncomingCertificate (key : String) (resources : ResourceSet)
  | revokeIncomingCertificate (key : String)
  | subscribeToRoaAlert (email : String) (states : OrdSet RouteValidity)
      (frequency : AlertFrequency)
  | unsubscribeFromRoaAlert (email : String) (notifyOnRoaChanges : Bool)
  | updateRoaAlertIgnoredAnnouncedRoutes (additions deletions : List AnnouncedRoute)
  /-- The changes are those the sender expects, for the history only. -/
  | updateAspaConfiguration (ifMatch : Option String) (entries : List AspaEntry)
      (changes : OrdMap Asn AspaChange)
  | deleteCertificateAuthority
  deriving DecidableEq

namespace CommandDetails

/-- The type of the command. -/
def type : CommandDetails → CommandType
  | createCertificateAuthority _ => .createCertificateAuthority
  | updateIncomingCertificate _ _ => .updateIncomingCertificate
  | revokeIncomingCertificate _ => .revokeIncomingCertificate
  | subscribeToRoaAlert _ _ _ => .subscribeToRoaAlert
  | unsubscribeFromRoaAlert _ _ => .unsubscribeFromRoaAlert
  | updateRoaAlertIgnoredAnnouncedRoutes _ _ => .updateRoaAlertIgnoredAnnouncedRoutes
  | updateAspaConfiguration _ _ _ => .updateAspaConfiguration
  | deleteCertificateAuthority => .deleteCertificateAuthority

/-- Routes in words. -/
def routesText (routes : List AnnouncedRoute) : String :=
  if routes.isEmpty then "none" else Text.join ", " (routes.map AnnouncedRoute.text)

/-- The change of one customer in words. -/
def changeText (customer : Asn) (change : AspaChange) : String :=
  change.added.text customer ++ " (was: [" ++
    Text.join ", " (change.deleted.toList.map Asn.text) ++ "])"

/-- The description kept in the history. -/
def summary : CommandDetails → String
  | createCertificateAuthority name => "Created certificate authority '" ++ name ++ "'."
  | updateIncomingCertificate key _ => "Updated incoming certificate for key " ++ key ++ "."
  | revokeIncomingCertificate key => "Revoked incoming certificate for key " ++ key ++ "."
  | subscribeToRoaAlert email states frequency =>
    "Subscribed " ++ email ++ " to " ++ frequency.word ++ " ROA alerts for " ++
      if states.contains .unknown then "invalid and unknown announcements."
      else "invalid announcements only."
  | unsubscribeFromRoaAlert email _ => "Unsubscribed " ++ email ++ " from ROA alerts."
  | updateRoaAlertIgnoredAnnouncedRoutes additions deletions =>
    "Updated suppressed routes for ROA alerts. Additions: " ++ routesText additions ++
      ". Deletions: " ++ routesText deletions ++ "."
  | updateAspaConfiguration _ _ changes =>
    if changes.isEmpty then "Updated ASPA configuration: no changes."
    else
      "Updated ASPA configuration: " ++
        Text.join "; " (changes.entries.map fun e => changeText e.1 e.2) ++ "."
  | deleteCertificateAuthority => "Deleted certificate authority."

end CommandDetails

/-- A command. -/
structure Command where
  /-- The authority at the version that the command is based on. -/
  authority : VersionedId
  actor : Actor
  details : CommandDetails
  deriving DecidableEq

namespace Command

/-- The type of the command. -/
def type (c : Command) : CommandType := c.details.type

/-- Who sends commands of this type. -/
def group (c : Command) : CommandGroup := c.type.group

/-- The description kept in the history. -/
def summary (c : Command) : String := c.details.summary

/-- The written form. -/
def text (c : Command) : String :=
  c.group.text ++ ":" ++ c.type.text ++ ":" ++ c.authority.text ++ " by " ++ c.actor.name

/-- An update of the ASPA configuration. The changes are those against the configuration that the
sender knows, none if the entries repeat an AS number. -/
def updateAspa (ifMatch : Option String) (entries : List AspaEntry)
    (current : AspaConfiguration) : CommandDetails :=
  .updateAspaConfiguration ifMatch entries <|
    match AspaConfiguration.ofEntries entries with
    | .ok updated => AspaConfiguration.diff current updated
    | .error _ => OrdMap.empty

end Command

/-! ### Drafts -/

/-- The entity tag that a draft will name. -/
inductive DraftTag where
  | missing
  /-- That of the configuration found. -/
  | current
  /-- That of the configuration without entries. -/
  | ofEmpty
  | literal (tag : String)
  deriving DecidableEq

/-- What a draft asks for. -/
inductive DraftDetails where
  | fixed (details : CommandDetails)
  /-- The configuration known to the sender is the one found, unless it is given. -/
  | updateAspa (tag : DraftTag) (entries : List AspaEntry) (current : Option AspaConfiguration)

/-- A command whose version and entity tag may depend on the state it will meet. -/
structure Draft where
  id : AggregateId
  /-- The version, or the one found. -/
  version : Option Nat
  actor : Option Actor
  details : DraftDetails

namespace Draft

/-- The details of a draft, given the authority found. -/
def detailsFor (found : Option CertificateAuthority) : DraftDetails → CommandDetails
  | .fixed details => details
  | .updateAspa tag entries current =>
    let committed := match found with
      | some ca => ca.aspa
      | none => OrdMap.empty
    let ifMatch := match tag with
      | .missing => none
      | .current => some (AspaConfiguration.entityTag committed)
      | .ofEmpty => some (AspaConfiguration.entityTag OrdMap.empty)
      | .literal tag => some tag
    Command.updateAspa ifMatch entries (current.getD committed)

/-- The command of a draft, given the authority found. Where no actor is named, commands of the
system are sent by it and others by the user `alice`. -/
def resolve (d : Draft) (found : Option CertificateAuthority) : Command :=
  let details := detailsFor found d.details
  { authority := ⟨d.id, d.version.getD (match found with | some ca => ca.version | none => 0)⟩
    actor := d.actor.getD (match details.type.group with
      | .system => Actor.system
      | .user => Actor.user "alice")
    details := details }

end Draft

end RpkiAuthority
