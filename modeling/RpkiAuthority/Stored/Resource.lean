import RpkiAuthority.Bgp.Route
import RpkiAuthority.Stored.Record

/-!
# Stored resources and routes

An AS number is stored as a number, a prefix and a resource set as text. The keys of maps by AS
number are its decimal digits without leading zeros.
-/

namespace RpkiAuthority.Stored

instance : Stored Asn where
  store a := .nat a.toNat
  restore
    | .number (.natural n) => .ofOption () (Asn.ofNat? n)
    | _ => .refuse

/-- The name of the member for an AS number in a stored map. -/
def asnKey (a : Asn) : String := a.toNat.repr

/-- The AS number that the member of a stored map is for. -/
def readAsnKey (name : JsonString) : Option Asn := do
  let s ← if name.escaped then none else name.value
  let a ← Asn.ofDigits? s.toList
  if asnKey a = s then some a else none

instance {ν : Type} [Stored ν] : Stored (OrdMap Asn ν) where
  store := storeMap asnKey
  restore := restoreMap readAsnKey

instance : Stored Prefix where
  store p := .text p.text
  restore := restoreText fun s => (Reading.ofExcept (Prefix.parse s)).mapCause fun _ => ()

instance : Stored ResourceSet where
  store s := .text s.text
  restore := restoreText fun s => (ResourceSet.read s).mapCause fun _ => ()

instance : Stored AnnouncedRoute where
  store r := .record [("asn", store r.asn), ("prefix", store r.pfx)]
  restore := restoreRecord ["asn", "prefix"] fun m =>
    AnnouncedRoute.mk <$> m.field "asn" <*> m.field "prefix"

/-- Restores a number of peers. -/
def restoreVisibility : JsonValue → Restored { n : Nat // n ≤ Text.max32 }
  | .number (.natural n) => if h : n ≤ Text.max32 then .ok ⟨n, h⟩ else .refuse
  | _ => .refuse

instance : Stored RisEntry where
  store e := .record [("origin", store e.origin), ("prefix", store e.pfx),
    ("visibility", .nat e.visibility)]
  restore := restoreRecord ["origin", "prefix", "visibility"] fun m =>
    (fun origin pfx visibility => ⟨origin, pfx, visibility.1, visibility.2⟩) <$>
      m.field "origin" <*> m.field "prefix" <*> m.fieldBy "visibility" restoreVisibility

end RpkiAuthority.Stored
