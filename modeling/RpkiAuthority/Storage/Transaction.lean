import RpkiAuthority.Collection.OrdMap
import RpkiAuthority.Storage.Locks

/-!
# Transactions

A transaction works on private copies. It copies an aggregate when it first looks at it and from
then on sees its copy only, together with the version the aggregate had in the store at that time
(`Entry.base`). What it will write is decided by its entries alone: an aggregate that was changed,
or whose version is to be incremented anyway, gets the version after the one it was read at, however
often it was changed; one that was not in the store gets version zero.
-/

namespace RpkiAuthority

/-- What the store asks of the things it keeps. -/
class Aggregate (A : Type) where
  id : A → AggregateId
  version : A → Nat
  /-- The aggregate at another version. -/
  withVersion : Nat → A → A

/-- A transaction's copy of an aggregate. -/
structure Entry (A : Type) where
  /-- The version in the store when it was first looked at; missing if there was none. -/
  base : Option Nat
  /-- The copy; missing if there is none or it was removed. -/
  working : Option A
  /-- Whether the transaction changed something. -/
  dirty : Bool
  /-- Whether the version is incremented in any case. -/
  forced : Bool
  deriving DecidableEq

namespace Entry

variable {A : Type}

/-- The copy of what is found in the store. -/
def ofFound [Aggregate A] (found : Option A) : Entry A where
  base := found.map Aggregate.version
  working := found
  dirty := false
  forced := false

/-- Whether something will be written. -/
def hasChanges (e : Entry A) : Bool := e.dirty || e.forced

/-- The version the aggregate will have when the transaction is committed. -/
def pendingVersion (e : Entry A) : Option Nat :=
  match e.working, e.base with
  | none, _ => none
  | some _, none => some 0
  | some _, some base => some (if e.hasChanges then base + 1 else base)

/-- Changes the aggregate, if there is one. -/
def update (change : A → A) (e : Entry A) : Entry A :=
  match e.working with
  | some a => { e with working := some (change a), dirty := true }
  | none => e

/-- Adds an aggregate, unless there is one. -/
def insert (a : A) (e : Entry A) : Entry A :=
  match e.working with
  | some _ => e
  | none => { e with working := some a, dirty := true }

/-- Removes the aggregate, if there is one. -/
def remove (e : Entry A) : Entry A :=
  match e.working with
  | some _ => { e with working := none, dirty := true }
  | none => e

/-- Makes sure that the version is incremented, if there is an aggregate. -/
def force (e : Entry A) : Entry A := if e.working.isSome then { e with forced := true } else e

end Entry

/-- A transaction. -/
structure Transaction (A : Type) where
  id : TxId
  /-- The copies by aggregate. -/
  entries : OrdMap AggregateId (Entry A)
  deriving DecidableEq

namespace Transaction

variable {A : Type}

/-- A transaction that has not looked at anything. -/
def new (id : TxId) : Transaction A := ⟨id, OrdMap.empty⟩

/-- The transaction's copy of an aggregate, given what is found in the store if it has none. -/
def entry [Aggregate A] (tx : Transaction A) (id : AggregateId) (found : Option A) : Entry A :=
  (tx.entries.find? id).getD (Entry.ofFound found)

/-- Replaces the copy of an aggregate. -/
def setEntry (tx : Transaction A) (id : AggregateId) (e : Entry A) : Transaction A :=
  { tx with entries := tx.entries.insert id e }

/-- Whether anything will be written. -/
def hasChanges (tx : Transaction A) : Bool := tx.entries.values.any Entry.hasChanges

end Transaction

/-- The versions of the aggregates that a committed transaction looked at. -/
abbrev VersionMap := OrdMap AggregateId Nat

/-- The versions of the aggregates that a transaction looked at, as they are once it is
committed. -/
def Transaction.versions {A : Type} (tx : Transaction A) : VersionMap :=
  OrdMap.ofList <| tx.entries.entries.filterMap fun e => e.2.pendingVersion.map (e.1, ·)

end RpkiAuthority
