import RpkiAuthority.Collection.OrdMap
import RpkiAuthority.Storage.Error

/-!
# Locks

Locks belong to transactions. For each aggregate there is at most one exclusive holder, and beside
it no other holder of any kind. A transaction may ask again for what it holds, and turn a shared
lock into an exclusive one when no other transaction shares it. All locks of a transaction are
released together.

The table lists an aggregate only while someone holds a lock on it. Waiting is not part of the
table: `LockTable.acquire?` says whether a lock is granted now, and whoever asks decides whether to
ask again or to give up with `LockTable.acquire`.
-/

namespace RpkiAuthority

/-- The number of a transaction. -/
abbrev TxId := Nat

/-- The written form of the number of a transaction. -/
def TxId.text (tx : TxId) : String := "tx-" ++ tx.repr

/-- What a lock allows others. -/
inductive LockMode where
  /-- Others may share the lock. -/
  | shared
  /-- No other transaction may hold a lock. -/
  | exclusive
  deriving DecidableEq, Repr

/-- Who holds locks on one aggregate. -/
structure Holders where
  exclusive : Option TxId
  shared : OrdSet TxId
  deriving DecidableEq

namespace Holders

/-- Nobody. -/
def none : Holders := ⟨Option.none, OrdMap.empty⟩

/-- Whether nobody holds a lock. -/
def isFree (h : Holders) : Bool := h.exclusive.isNone && h.shared.isEmpty

/-- Whether no other transaction holds the exclusive lock. -/
def noOtherExclusive (h : Holders) (tx : TxId) : Bool :=
  h.exclusive.isNone || h.exclusive == some tx

/-- Whether no other transaction stands in the way of a lock. -/
def admits (h : Holders) (tx : TxId) : LockMode → Bool
  | .shared => h.noOtherExclusive tx
  | .exclusive => h.noOtherExclusive tx && h.shared.toList.all (· == tx)

/-- Enters a lock. An exclusive holder that asks for a shared lock keeps the exclusive one. -/
def grant (h : Holders) (tx : TxId) : LockMode → Holders
  | .shared => if h.exclusive = some tx then h else { h with shared := h.shared.add tx }
  | .exclusive => ⟨some tx, h.shared.erase tx⟩

/-- Strikes out a transaction. -/
def release (h : Holders) (tx : TxId) : Holders where
  exclusive := if h.exclusive = some tx then Option.none else h.exclusive
  shared := h.shared.erase tx

/-- Whether a transaction holds a lock of at least a mode. -/
def holds (h : Holders) (tx : TxId) : LockMode → Bool
  | .shared => h.exclusive == some tx || h.shared.contains tx
  | .exclusive => h.exclusive == some tx

end Holders

/-- The holders of locks by aggregate. -/
abbrev LockTable := OrdMap AggregateId Holders

namespace LockTable

/-- The holders of locks on an aggregate. -/
def holders (t : LockTable) (id : AggregateId) : Holders := (t.find? id).getD Holders.none

/-- Grants a lock unless another transaction stands in the way. -/
def acquire? (t : LockTable) (id : AggregateId) (tx : TxId) (mode : LockMode) : Option LockTable :=
  if (t.holders id).admits tx mode then some (t.insert id ((t.holders id).grant tx mode)) else none

/-- Grants a lock, or fails as one who cannot wait. -/
def acquire (t : LockTable) (id : AggregateId) (tx : TxId) (mode : LockMode) :
    Except StorageError LockTable :=
  match t.acquire? id tx mode with
  | some t => .ok t
  | none => .error (.lockTimeout id)

/-- Whether a transaction holds a lock of at least a mode. -/
def holds (t : LockTable) (id : AggregateId) (tx : TxId) (mode : LockMode) : Bool :=
  (t.holders id).holds tx mode

/-- Releases all locks of a transaction. -/
def releaseAll (t : LockTable) (tx : TxId) : LockTable :=
  (t.mapValues fun h => h.release tx).filter fun _ h => !h.isFree

/-- A transaction waits for a lock while another one ends. The lock is granted at once if it is
free, and else when the other's locks are released, unless someone else holds it too. -/
def handOver (t : LockTable) (id : AggregateId) (ending waiting : TxId) (mode : LockMode) :
    Except StorageError Unit × LockTable :=
  match t.acquire? id waiting mode with
  | some t => (.ok (), t.releaseAll ending)
  | none =>
    let t := t.releaseAll ending
    match t.acquire id waiting mode with
    | .ok t => (.ok (), t)
    | .error e => (.error e, t)

end LockTable

end RpkiAuthority
