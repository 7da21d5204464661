import RpkiAuthority.Collection.OrdMap
import RpkiAuthority.Resource.Text

/-!
# ASPA providers

A customer AS number authorises provider AS numbers, each for all announcements or for those of one
address family. In text a limit is a suffix in parentheses.
-/

namespace RpkiAuthority

/-- The address families a provider is authorised for. -/
inductive AspaLimit where
  | any
  | ipv4
  | ipv6
  deriving DecidableEq, Repr

namespace AspaLimit

/-- What is written after a provider with the limit. -/
def suffix : AspaLimit → String
  | any => ""
  | ipv4 => "(v4)"
  | ipv6 => "(v6)"

end AspaLimit

/-- The providers of a customer with their limits. -/
abbrev AspaProviders := OrdMap Asn AspaLimit

/-- One provider as a user submits it. -/
structure AspaProvider where
  asn : Asn
  limit : AspaLimit
  deriving DecidableEq

/-- What is wrong with a text about a customer and its providers. -/
inductive AspaTextError where
  | customerMissing
  | customerInvalid (text : String)
  | providerInvalid (text : String)
  | extraParts
  deriving DecidableEq, Repr

namespace AspaTextError

/-- The wording of the error. -/
def message : AspaTextError → String
  | customerMissing => "ASPA configuration format invalid: customer AS missing"
  | customerInvalid s => "ASPA configuration format invalid: cannot parse customer AS: " ++ s
  | providerInvalid s => "ASPA configuration format invalid: cannot parse provider AS: " ++ s
  | extraParts => "ASPA configuration format invalid: found more than one '=>'"

end AspaTextError

namespace AspaProvider

/-- The written form. -/
def text (p : AspaProvider) : String := p.asn.text ++ p.limit.suffix

/-- Takes the suffix of a limit off a text. -/
def splitLimit (l : List Char) : List Char × AspaLimit :=
  match Text.dropEnding? AspaLimit.ipv4.suffix.toList l with
  | some rest => (rest, .ipv4)
  | none =>
    match Text.dropEnding? AspaLimit.ipv6.suffix.toList l with
    | some rest => (rest, .ipv6)
    | none => (l, .any)

/-- Reads a provider between white space; there may also be some before the suffix. -/
def read (l : List Char) : Reading AspaTextError AspaProvider := do
  let l := Text.trimmed l
  let (number, limit) := splitLimit l
  let asn ← (Asn.read (Text.trimmed number)).mapCause fun _ => .providerInvalid (String.ofList l)
  return ⟨asn, limit⟩

end AspaProvider

/-- The notation of the IETF for a customer and its providers. -/
def aspaText (customer : Asn) (providers : List AspaProvider) : String :=
  customer.text ++ " => " ++
    if providers.isEmpty then "<none>" else Text.join ", " (providers.map AspaProvider.text)

/-- The providers of a customer as a list. -/
def AspaProviders.toList (m : AspaProviders) : List AspaProvider :=
  m.entries.map fun e => ⟨e.1, e.2⟩

/-- The notation of the IETF for a customer and the set of its providers. -/
def AspaProviders.text (customer : Asn) (m : AspaProviders) : String := aspaText customer m.toList

end RpkiAuthority
