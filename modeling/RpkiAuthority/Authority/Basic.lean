import RpkiAuthority.Aspa.Configuration
import RpkiAuthority.RoaAlert.Configuration
import RpkiAuthority.Storage.VersionedId
import RpkiAuthority.Uuid

/-!
# Certificate authorities

Of a certificate authority this library keeps what has to stay consistent: the resources its parent
certified for its keys, and the configuration that depends on them.
-/

namespace RpkiAuthority

/-- A certificate authority. -/
structure CertificateAuthority where
  id : AggregateId
  version : Nat
  name : String
  uuid : Uuid
  /-- The resources certified for each key. -/
  incoming : OrdMap String ResourceSet
  /-- Whether configuration changed since it was last published. -/
  configurationUpdated : Bool
  roaAlerts : Option AlertConfiguration
  aspa : AspaConfiguration
  deriving DecidableEq

namespace CertificateAuthority

/-- A new authority, without certificates and configuration. -/
def create (id : AggregateId) (name : String) (uuid : Uuid) : CertificateAuthority where
  id := id
  version := 0
  name := name
  uuid := uuid
  incoming := OrdMap.empty
  configurationUpdated := false
  roaAlerts := none
  aspa := OrdMap.empty

/-- The authority at its version. -/
def versionedId (ca : CertificateAuthority) : VersionedId := ⟨ca.id, ca.version⟩

/-- The resources of all certificates together, key by key. -/
def certified (ca : CertificateAuthority) : ResourceSet :=
  ca.incoming.values.foldl ResourceSet.union ResourceSet.empty

/-- Stores the resources certified for a key. -/
def setIncoming (key : String) (resources : ResourceSet) (ca : CertificateAuthority) :
    CertificateAuthority :=
  { ca with incoming := ca.incoming.insert key resources }

/-- Removes the certificate for a key. -/
def removeIncoming (key : String) (ca : CertificateAuthority) : CertificateAuthority :=
  { ca with incoming := ca.incoming.erase key }

/-- Marks the configuration as changed since it was last published. -/
def markUpdated (ca : CertificateAuthority) : CertificateAuthority :=
  { ca with configurationUpdated := true }

/-- The alerts, which are the initial ones until something is configured. -/
def alerts (ca : CertificateAuthority) : AlertConfiguration :=
  ca.roaAlerts.getD AlertConfiguration.initial

/-- Replaces the alerts. -/
def setAlerts (alerts : AlertConfiguration) (ca : CertificateAuthority) : CertificateAuthority :=
  { ca with roaAlerts := some alerts }

/-- Replaces the ASPA configuration. -/
def setAspa (aspa : AspaConfiguration) (ca : CertificateAuthority) : CertificateAuthority :=
  { ca with aspa := aspa }

end CertificateAuthority

end RpkiAuthority
