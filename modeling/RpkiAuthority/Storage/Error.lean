import RpkiAuthority.Storage.VersionedId

/-!
# Errors of the store

Two things can go wrong between transactions. Both go away when everything is tried again from the
state found then.
-/

namespace RpkiAuthority

/-- What stops a transaction. -/
inductive StorageError where
  /-- An aggregate is not at the version it was read at. -/
  | versionConflict (id : AggregateId) (expected : Nat) (found : Option Nat)
  /-- A lock was not free in time. -/
  | lockTimeout (id : AggregateId)
  deriving DecidableEq, Repr

namespace StorageError

/-- The wording of the error. -/
def message : StorageError → String
  | versionConflict id expected (some found) =>
    "Aggregate " ++ id.repr ++ " was changed concurrently, expected version " ++ expected.repr ++
      " found " ++ found.repr
  | versionConflict id expected none =>
    "Aggregate " ++ id.repr ++ " was removed concurrently, expected version " ++ expected.repr
  | lockTimeout id => "Timed out waiting for lock on aggregate " ++ id.repr

end StorageError

end RpkiAuthority
