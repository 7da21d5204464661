import RpkiAuthority.Bgp.Route
import RpkiAuthority.Collection.OrdMap
import RpkiAuthority.Text.Lowercase

/-!
# ROA alerts

Users subscribe with an e-mail address to alerts about announcements that the ROAs of their
certificate authority make invalid or leave unknown, and suppress announcements they do not care
about. Addresses are stored in a normal form, so that spellings that differ in case or in the white
space around them are the same subscriber.
-/

namespace RpkiAuthority

/-- How often alerts are sent. -/
inductive AlertFrequency where
  | daily
  | weekly
  deriving DecidableEq, Repr

/-- The word for the frequency in a sentence. -/
def AlertFrequency.word : AlertFrequency → String
  | daily => "daily"
  | weekly => "weekly"

/-- The validity of an announcement that a subscriber can be alerted about. -/
inductive RouteValidity where
  | invalidAsn
  | invalidLength
  | unknown
  deriving DecidableEq, Repr

namespace RouteValidity

/-- The position in the order of the states. -/
def rank : RouteValidity → Nat
  | invalidAsn => 0
  | invalidLength => 1
  | unknown => 2

instance : Ord RouteValidity := ⟨compareOn rank⟩

instance : Std.TransOrd RouteValidity := inferInstanceAs (Std.TransCmp (compareOn rank))

instance : Std.LawfulEqOrd RouteValidity :=
  lawfulEqCmp_compareOn fun a b h => by cases a <;> cases b <;> simp_all [rank]

end RouteValidity

/-- The normal form of an e-mail address. -/
def normalEmail (s : String) : String := String.ofList (Text.lowered (Text.trimmed s.toList))

/-- Who is alerted about what. -/
structure AlertSubscription where
  /-- The normal forms of the subscribers' addresses. -/
  emails : OrdSet String
  states : OrdSet RouteValidity
  frequency : AlertFrequency
  deriving DecidableEq

/-- The alerts of a certificate authority. -/
structure AlertConfiguration where
  subscription : Option AlertSubscription
  notifyOnRoaChanges : Bool
  /-- The suppressed announcements. -/
  ignored : OrdSet AnnouncedRoute
  deriving DecidableEq

namespace AlertConfiguration

/-- Nobody subscribed and nothing suppressed. -/
def initial : AlertConfiguration := ⟨none, false, OrdMap.empty⟩

/-- Adds a subscriber and replaces the states and the frequency. -/
def subscribe (c : AlertConfiguration) (email : String) (states : OrdSet RouteValidity)
    (frequency : AlertFrequency) : AlertConfiguration :=
  let emails := match c.subscription with
    | some s => s.emails
    | none => OrdMap.empty
  { c with subscription := some ⟨emails.add (normalEmail email), states, frequency⟩ }

/-- Whether an address is subscribed, in any spelling. -/
def isSubscribed (c : AlertConfiguration) (email : String) : Bool :=
  match c.subscription with
  | some s => s.emails.contains (normalEmail email)
  | none => false

/-- Removes a subscriber, and the subscription with the last one. -/
def unsubscribe (c : AlertConfiguration) (email : String) : AlertConfiguration :=
  match c.subscription with
  | none => c
  | some s =>
    let emails := s.emails.erase (normalEmail email)
    { c with subscription := if emails.isEmpty then none else some { s with emails := emails } }

/-- Adds suppressed announcements and then removes some. -/
def update (c : AlertConfiguration) (additions deletions : List AnnouncedRoute) :
    AlertConfiguration :=
  let added := additions.foldl OrdSet.add c.ignored
  { c with ignored := deletions.foldl OrdMap.erase added }

/-- The suppressed announcements that share no address with the resources, in order. -/
def outside (c : AlertConfiguration) (resources : ResourceSet) : List AnnouncedRoute :=
  c.ignored.toList.filter fun r => !resources.overlaps r.pfx

/-- Keeps the suppressed announcements that share an address with the resources. -/
def retainOverlapping (c : AlertConfiguration) (resources : ResourceSet) : AlertConfiguration :=
  { c with ignored := c.ignored.filter fun r _ => resources.overlaps r.pfx }

end AlertConfiguration

end RpkiAuthority
