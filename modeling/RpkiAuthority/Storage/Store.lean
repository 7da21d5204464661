import RpkiAuthority.Storage.Transaction

/-!
# The store

The store keeps the committed aggregates and the lock table, and hands out numbers for aggregates
and transactions. A transaction is committed if every aggregate it is going to write is still at the
version at which the transaction first looked at it; then all its writes take place at once, and
otherwise none of them. Locks are released by a step of its own, after the transaction has ended in
whatever way.
-/

namespace RpkiAuthority

/-- A store of aggregates. -/
structure Store (A : Type) where
  aggregates : OrdMap AggregateId A
  locks : LockTable
  /-- The next number for an aggregate. Numbers are not given again. -/
  nextId : AggregateId
  nextTx : TxId

namespace Store

variable {A : Type}

/-- The store without aggregates. -/
def empty : Store A := ⟨OrdMap.empty, OrdMap.empty, 1, 1⟩

/-- The committed aggregate. -/
def get? (s : Store A) (id : AggregateId) : Option A := s.aggregates.find? id

/-- The committed version. -/
def version? [Aggregate A] (s : Store A) (id : AggregateId) : Option Nat :=
  (s.get? id).map Aggregate.version

/-- The numbers of the committed aggregates in order. -/
def ids (s : Store A) : List AggregateId := s.aggregates.keys

/-- Hands out a number for an aggregate. -/
def allocate (s : Store A) : AggregateId × Store A := (s.nextId, { s with nextId := s.nextId + 1 })

/-- Starts a transaction. -/
def begin (s : Store A) : Transaction A × Store A :=
  (.new s.nextTx, { s with nextTx := s.nextTx + 1 })

/-- Locks an aggregate for a transaction. -/
def lock (s : Store A) (id : AggregateId) (tx : TxId) (mode : LockMode) :
    Except StorageError (Store A) :=
  (s.locks.acquire id tx mode).map fun locks => { s with locks := locks }

/-- Releases the locks of a transaction that has ended. -/
def release (s : Store A) (tx : TxId) : Store A := { s with locks := s.locks.releaseAll tx }

/-- A transaction's copy of an aggregate. -/
def entry [Aggregate A] (s : Store A) (tx : Transaction A) (id : AggregateId) : Entry A :=
  tx.entry id (s.get? id)

/-- Lets a transaction act on its copy of an aggregate. -/
def act [Aggregate A] (s : Store A) (tx : Transaction A) (id : AggregateId)
    (action : Entry A → Entry A) : Transaction A :=
  tx.setEntry id (action (s.entry tx id))

/-- The first aggregate, in order, that a transaction changed and that is not at the version at
which it was first looked at. -/
def conflict? [Aggregate A] (s : Store A) (tx : Transaction A) : Option StorageError :=
  tx.entries.entries.findSome? fun (id, e) =>
    if e.hasChanges && s.version? id != e.base then
      some (.versionConflict id (e.base.getD 0) (s.version? id))
    else none

/-- Writes one entry of a transaction. -/
def writeEntry [Aggregate A] (aggregates : OrdMap AggregateId A) (e : AggregateId × Entry A) :
    OrdMap AggregateId A :=
  if e.2.hasChanges then
    match e.2.working, e.2.pendingVersion with
    | some a, some version => aggregates.insert e.1 (Aggregate.withVersion version a)
    | _, _ => aggregates.erase e.1
  else aggregates

/-- Commits a transaction. -/
def commit [Aggregate A] (s : Store A) (tx : Transaction A) :
    Except StorageError (VersionMap × Store A) :=
  match s.conflict? tx with
  | some e => .error e
  | none =>
    .ok (tx.versions, { s with aggregates := tx.entries.entries.foldl writeEntry s.aggregates })

end Store

end RpkiAuthority
