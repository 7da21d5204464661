import RpkiAuthority.Aspa.Provider
import RpkiAuthority.Digest.Sha256

/-!
# ASPA configuration

The configuration of a certificate authority maps each customer AS number to its providers. Users
submit it as a list of entries, which may repeat customers and providers; turning the list into a
configuration fails at the first repetition. The configuration has a canonical text, whose hash is
the entity tag by which a user says which configuration an update is meant for.
-/

namespace RpkiAuthority

/-- A customer and its providers as a user submits them. -/
structure AspaEntry where
  customer : Asn
  providers : List AspaProvider
  deriving DecidableEq

/-- The providers of every customer. -/
abbrev AspaConfiguration := OrdMap Asn AspaProviders

/-- The first AS number that submitted entries repeat. -/
inductive AspaRepetition where
  | customer (asn : Asn)
  | provider (customer provider : Asn)
  deriving DecidableEq

namespace AspaRepetition

/-- The wording of the error. -/
def message : AspaRepetition → String
  | customer a => "duplicate customer " ++ a.text ++ " in ASPA configuration"
  | provider c p =>
    "duplicate provider " ++ p.text ++ " for customer " ++ c.text ++ " in ASPA configuration"

/-- The AS number repeated. -/
def asn : AspaRepetition → Asn
  | customer a => a
  | provider _ p => p

end AspaRepetition

namespace AspaEntry

/-- The written form. -/
def text (e : AspaEntry) : String := aspaText e.customer e.providers

/-- Reads the providers after the arrow. -/
def readProviders (l : List Char) : Reading AspaTextError (List AspaProvider) :=
  if Text.trimmed l = "<none>".toList then .ok []
  else (Text.piecesAt ',' l).mapM AspaProvider.read

/-- Reads a customer and, after an arrow, its providers. Without an arrow there are none. -/
def read (l : List Char) : Reading AspaTextError AspaEntry := do
  match Text.piecesAtPair '=' '>' l with
  | [] => .error (.refused .customerMissing)
  | customer :: more =>
    let asn ← (Asn.read (Text.trimmed customer)).mapCause fun _ =>
      .customerInvalid (String.ofList (Text.trimmed customer))
    match more with
    | [] => return ⟨asn, []⟩
    | [providers] => return ⟨asn, ← readProviders providers⟩
    | providers :: _ =>
      let _ ← readProviders providers
      .error (.refused .extraParts)

/-- Adds providers one after the other, up to the first that is there already. -/
def addProviders (customer : Asn) :
    AspaProviders → List AspaProvider → Except AspaRepetition AspaProviders
  | m, [] => .ok m
  | m, p :: rest =>
    if m.contains p.asn then .error (.provider customer p.asn)
    else addProviders customer (m.insert p.asn p.limit) rest

end AspaEntry

/-- The change of the providers of one customer. -/
structure AspaChange where
  /-- Providers that were added or got another limit. -/
  added : AspaProviders
  /-- Providers that were removed. -/
  deleted : OrdSet Asn
  deriving DecidableEq

namespace AspaConfiguration

/-- Adds entries one after the other, up to the first repetition. -/
def addEntries : AspaConfiguration → List AspaEntry → Except AspaRepetition AspaConfiguration
  | m, [] => .ok m
  | m, e :: rest =>
    match AspaEntry.addProviders e.customer OrdMap.empty e.providers with
    | .error r => .error r
    | .ok providers =>
      if m.contains e.customer then .error (.customer e.customer)
      else addEntries (m.insert e.customer providers) rest

/-- The configuration that a list of entries stands for. -/
def ofEntries (l : List AspaEntry) : Except AspaRepetition AspaConfiguration :=
  addEntries OrdMap.empty l

/-- The customers as resources. -/
def customers (m : AspaConfiguration) : ResourceSet := ResourceSet.ofAsns m.keys

/-- The written form of every entry, by customer. -/
def lines (m : AspaConfiguration) : List String := m.entries.map fun e => e.2.text e.1

/-- The canonical text: one line for each entry. -/
def text (m : AspaConfiguration) : String := Text.join "\n" m.lines

/-- The entity tag: the hash of the canonical text. -/
def entityTag (m : AspaConfiguration) : String := Sha256.hexOfText m.text

/-- Splits the configuration into the entries for customers in the resources and all others. -/
def splitHeld (m : AspaConfiguration) (resources : ResourceSet) :
    AspaConfiguration × List (Asn × AspaProviders) :=
  (m.filter fun customer _ => resources.containsAsn customer,
    m.entries.filter fun e => !resources.containsAsn e.1)

/-- The change from one set of providers to another. -/
def change (current updated : AspaProviders) : AspaChange where
  added := updated.filter fun asn limit => current.find? asn != some limit
  deleted := OrdSet.ofMembers (current.keys.filter fun asn => !updated.contains asn)

/-- The changes from one configuration to another, for the customers that change. -/
def diff (current updated : AspaConfiguration) : OrdMap Asn AspaChange :=
  let customers := (OrdSet.ofMembers (current.keys ++ updated.keys)).toList
  OrdMap.ofList <| customers.filterMap fun customer =>
    if current.find? customer = updated.find? customer then none
    else some (customer, change ((current.find? customer).getD OrdMap.empty)
      ((updated.find? customer).getD OrdMap.empty))

end AspaConfiguration

end RpkiAuthority
