import RpkiAuthority.Text.Decimal
import RpkiAuthority.Text.Pieces

/-!
# Versioned identifiers

An aggregate is known by a number, and a version of it by that number and the number of the version.
In text a colon stands between them.
-/

namespace RpkiAuthority

/-- The number that an aggregate is known by. -/
abbrev AggregateId := Nat

/-- An aggregate at a version. -/
structure VersionedId where
  id : AggregateId
  version : Nat
  deriving DecidableEq, Repr

namespace VersionedId

/-- The wording of the error for a text that is no versioned identifier. -/
def expected : String := "expected 'id:version'"

/-- The written form. -/
def text (v : VersionedId) : String := v.id.repr ++ ":" ++ v.version.repr

/-- Reads two numbers of 64 bits with a colon between them. -/
def read (s : String) : Option VersionedId := do
  let (id, version) ← Text.cutAt ':' s.toList
  return ⟨← Text.readNat Text.max64 id, ← Text.readNat Text.max64 version⟩

/-- The same aggregate at another version. -/
def withVersion (v : VersionedId) (version : Nat) : VersionedId := { v with version := version }

/-- Versions are ordered by aggregate first. -/
instance : Ord VersionedId := ⟨compareOn fun v => [v.id, v.version]⟩

end VersionedId

end RpkiAuthority
