import RpkiAuthority.Collection.OrdMap
import RpkiAuthority.Json.Value
import RpkiAuthority.Text.Decimal
import RpkiAuthority.Text.Reading

/-!
# Stored forms

Values are kept in storage as JSON. A type that can be stored says how its values are written and
which JSON values it reads back. Reading is more lenient than writing: it takes repeated members of
sets, and names of states in a second form. It can also break off, because resources are stored as
text.
-/

namespace RpkiAuthority

/-- What restoring gives: all refusals are alike. -/
abbrev Restored (α : Type) := Reading Unit α

/-- Refuses a stored value. -/
def Restored.refuse {α : Type} : Restored α := .error (.refused ())

/-- A type whose values have a stored form. -/
class Stored (α : Type) where
  /-- The stored form. -/
  store : α → JsonValue
  /-- The value of a stored form. -/
  restore : JsonValue → Restored α

export Stored (store restore)

namespace Stored

/-! ### Simple values -/

/-- Restores a natural number of at most `max`. -/
def restoreNat (max : Nat) : JsonValue → Restored Nat
  | .number (.natural n) => if n ≤ max then .ok n else .refuse
  | _ => .refuse

/-- Restores a number of 64 bits. -/
def restoreNat64 : JsonValue → Restored Nat := restoreNat Text.max64

instance : Stored Bool where
  store := .bool
  restore
    | .bool b => .ok b
    | _ => .refuse

instance : Stored String where
  store := .text
  restore
    | .string ⟨some s, _⟩ => .ok s
    | _ => .refuse

/-- Restores a value from its text. -/
def restoreText {α : Type} (read : String → Restored α) (v : JsonValue) : Restored α := do
  read (← restore v)

/-- Restores one of finitely many names, which may stand alone or be the only member of an object,
with the value null. -/
def restoreName {α : Type} (read : String → Option α) : JsonValue → Restored α
  | .string ⟨some name, _⟩ => .ofOption () (read name)
  | .object [(⟨some name, _⟩, .null)] => .ofOption () (read name)
  | _ => .refuse

/-! ### Collections -/

section

variable {α κ ν : Type}

instance [Stored α] : Stored (Option α) where
  store
    | some a => store a
    | none => .null
  restore
    | .null => .ok none
    | v => (restore v).map some

instance [Stored α] : Stored (List α) where
  store l := .array (l.map store)
  restore
    | .array elements => elements.mapM restore
    | _ => .refuse

/-- A set is stored as the array of its members. -/
instance [Ord κ] [Std.TransOrd κ] [Std.LawfulEqOrd κ] [Stored κ] : Stored (OrdSet κ) where
  store s := store (OrdSet.toList s)
  restore v := (restore v).map OrdSet.ofMembers

/-- A map is stored as an object whose members are named for the keys. -/
def storeMap [Ord κ] [Stored ν] (name : κ → String) (m : OrdMap κ ν) : JsonValue :=
  .record (m.entries.map fun e => (name e.1, store e.2))

/-- Restores a map; of members named alike the last counts. -/
def restoreMap [Ord κ] [Std.TransOrd κ] [Std.LawfulEqOrd κ] [Stored ν]
    (key : JsonString → Option κ) : JsonValue → Restored (OrdMap κ ν)
  | .object members => do
    let entries ← members.mapM fun e => do
      let k ← Reading.ofOption () (key e.1)
      return (k, ← restore e.2)
    return OrdMap.ofList entries
  | _ => .refuse

instance [Stored ν] : Stored (OrdMap String ν) where
  store := storeMap id
  restore := restoreMap JsonString.value

end

end Stored

end RpkiAuthority
