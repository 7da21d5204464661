import RpkiAuthority.Authority.Command
import RpkiAuthority.History.Record

/-!
# The audit log

The audit log has a record for every command that had an effect, in the order in which they took
effect. Records are never removed. When an authority is deleted its records are marked, and marked
records are no longer found.
-/

namespace RpkiAuthority

/-- The records of executed commands, the oldest first. -/
structure AuditLog where
  records : List CommandRecord
  /-- The number of the next record. -/
  nextId : Nat
  deriving DecidableEq

namespace AuditLog

/-- The log without records. -/
def empty : AuditLog := ⟨[], 1⟩

/-- The most records that are listed when asked for recent ones. -/
def maxRecent : Nat := 2500

/-- The record of a command that led to a version of an authority. -/
def recordOf (id : Nat) (now : Timestamp) (authority : VersionedId) (command : Command)
    (events : List String) : CommandRecord where
  id := id
  executedAt := now
  authority := authority
  actor := command.actor.name
  type := command.type
  group := command.group
  summary := command.summary
  events := Text.join "\n" events
  deletedAt := none

/-- Adds the record of a command; it is the first component. -/
def add (log : AuditLog) (now : Timestamp) (authority : VersionedId) (command : Command)
    (events : List String) : CommandRecord × AuditLog :=
  let record := recordOf log.nextId now authority command events
  (record, ⟨log.records ++ [record], log.nextId + 1⟩)

/-- Whether a record is about an authority and not marked as deleted. -/
def isCurrent (id : AggregateId) (r : CommandRecord) : Bool := r.authority.id == id && !r.isDeleted

/-- The most recent records about an authority, the newest first. -/
def recent (log : AuditLog) (id : AggregateId) : List CommandRecord :=
  (log.records.reverse.filter (isCurrent id)).take maxRecent

/-- The records of commands that led to later versions of an authority, the oldest first. -/
def since (log : AuditLog) (v : VersionedId) : List CommandRecord :=
  log.records.filter fun r => isCurrent v.id r && v.version < r.authority.version

/-- Marks the records about an authority as deleted; the first component is their number. -/
def delete (log : AuditLog) (now : Timestamp) (id : AggregateId) : Nat × AuditLog :=
  (log.records.countP (isCurrent id),
    { log with
      records := log.records.map fun r =>
        if isCurrent id r then { r with deletedAt := some now } else r })

end AuditLog

end RpkiAuthority
