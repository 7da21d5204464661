import RpkiAuthority.Stored.Basic

/-!
# Stored records

A record is stored as an object with one member for each field. It is restored from such an object,
with its members in any order and others among them, or from an array with the values of its fields
in order. A field must not be given twice. Of several faults the one that is met first, reading the
members in order, is the outcome.
-/

namespace RpkiAuthority.Stored

/-- What restoring some fields gives. A fault comes with the position of the member where it is
noticed. -/
def Fields (α : Type) := Except (Nat × Fault Unit) α

namespace Fields

variable {α β : Type}

/-- The outcome of a field whose member is at a position. -/
def atPosition (i : Nat) : Restored α → Fields α
  | .ok a => .ok a
  | .error fault => .error (i, fault)

/-- Joins two outcomes; of two faults the first in position counts. -/
def join (f : Fields (α → β)) (x : Fields α) : Fields β :=
  match f, x with
  | .ok f, .ok a => .ok (f a)
  | .ok _, .error e => .error e
  | .error e, .ok _ => .error e
  | .error d, .error e => .error (if e.1 < d.1 then e else d)

instance : Applicative Fields where
  pure := Except.ok
  seq f x := join f (x ())

/-- The outcome without positions. -/
def finish : Fields α → Restored α
  | .ok a => .ok a
  | .error e => .error e.2

end Fields

/-- The members of a stored record. -/
structure Members where
  /-- Whether the fields are named, in any order. -/
  named : Bool
  list : List (JsonString × JsonValue)

namespace Members

variable {α : Type}

/-- The members of a field with their positions. -/
def ofField (m : Members) (name : String) : List (Nat × JsonValue) :=
  m.list.zipIdx.filterMap fun (e, i) => if e.1.value = some name then some (i, e.2) else none

/-- The outcome where a field is missing: it is noticed after all members. -/
def missing (m : Members) : Fields α := .error (m.list.length, .refused ())

/-- Restores a field, given the outcome where it is missing. -/
def fieldOr (m : Members) (name : String) (absent : Fields α) (read : JsonValue → Restored α) :
    Fields α :=
  match m.ofField name with
  | [] => absent
  | [(i, v)] => .atPosition i (read v)
  | (i, v) :: (k, _) :: _ => (fun _ => id) <$> .atPosition i (read v) <*> .error (k, .refused ())

/-- Restores a field by a reader. -/
def fieldBy (m : Members) (name : String) (read : JsonValue → Restored α) : Fields α :=
  m.fieldOr name m.missing read

/-- Restores a field. -/
def field [Stored α] (m : Members) (name : String) : Fields α := m.fieldBy name restore

/-- Restores a field that may be left out where fields are named. -/
def optionalField [Stored α] (m : Members) (name : String) : Fields (Option α) :=
  m.fieldOr name (if m.named then pure none else m.missing) restore

/-- Restores a field that may always be left out. -/
def fieldWithDefault [Stored α] (m : Members) (name : String) (default : α) : Fields α :=
  m.fieldOr name (pure default) restore

/-- Fails at the first member whose name denotes no text. -/
def checkNames (m : Members) : Fields Unit :=
  match m.list.findIdx? fun e => e.1.value.isNone with
  | some i => .error (i, .refused ())
  | none => pure ()

end Members

/-- Restores a record with the given fields. -/
def restoreRecord {α : Type} (names : List String) (fields : Members → Fields α) :
    JsonValue → Restored α
  | .object members =>
    let m : Members := ⟨true, members⟩
    ((fun a _ => a) <$> fields m <*> m.checkNames).finish
  | .array elements =>
    let m : Members := ⟨false, (names.map JsonString.of).zip elements⟩
    ((fun a _ => a) <$> fields m <*>
      if names.length < elements.length then .error (names.length, .refused ())
      else pure ()).finish
  | _ => .refuse

end RpkiAuthority.Stored
