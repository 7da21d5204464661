import RpkiAuthority.Engine.Action
import RpkiAuthority.Metrics.Command

/-!
# Processes

Everything that a running command does to what it shares with other commands is done in single
steps: starting and ending a transaction, looking at a committed authority, trying to get a lock,
committing, reading the audit log. A process is a program of such steps. Processes of several
commands can therefore be run one after the other or with their steps in any order.
-/

namespace RpkiAuthority

/-- A command whose record is written when the transaction is committed. -/
structure PendingRecord where
  command : Command
  /-- The version that the authority was going to have when the command had run. -/
  version : Nat
  /-- The descriptions of the events. -/
  events : List String
  deriving DecidableEq

/-- What is counted when a command has run. -/
inductive Measurement where
  | duration (type : CommandType)
  | retry
  | outcome (o : CommandOutcome)
  deriving DecidableEq, Repr

/-- A step on what commands share. -/
inductive SharedQuery (X : Interface) where
  /-- Start a transaction. -/
  | start
  /-- Get a lock in time or give up. -/
  | acquire (tx : TxId) (id : AggregateId) (mode : LockMode)
  /-- Look at a committed authority. -/
  | read (id : AggregateId)
  /-- Write the changes of a transaction, the marks of deleted records and the new records. -/
  | commit (tx : Transaction CertificateAuthority) (deletions : List AggregateId)
      (records : List PendingRecord)
  /-- Release the locks of a transaction that has ended. -/
  | release (tx : TxId)
  /-- The records of later versions of an authority. -/
  | recordsSince (v : VersionedId)
  | log (line : LogLine)
  | measure (m : Measurement)
  /-- A number below the given one, or zero, by chance. -/
  | draw (bound : Nat)
  | freshUuid
  | announcements
  /-- Something outside of the engine. -/
  | outside (q : X.Query)
  /-- Nothing further happens: commands run inside of commands without an end. -/
  | stuck

/-- The interface of processes. -/
def sharedInterface (X : Interface) : Interface where
  Query := SharedQuery X
  Reply
    | .start => Transaction CertificateAuthority
    | .acquire _ _ _ | .commit _ _ _ => Except StorageError Unit
    | .read _ => Option CertificateAuthority
    | .release _ | .log _ | .measure _ => Unit
    | .recordsSince _ => List CommandRecord
    | .draw _ => Nat
    | .freshUuid => Uuid
    | .announcements => AnnouncementIndex
    | .outside q => X.Reply q
    | .stuck => Empty

/-- A program of steps on what commands share. -/
abbrev Process (X : Interface) := Dialogue (sharedInterface X)

namespace Process

variable {X : Interface}

/-- Takes one step. -/
def step (q : SharedQuery X) : Process X ((sharedInterface X).Reply q) :=
  Dialogue.query (I := sharedInterface X) q

/-- Does nothing further. -/
def stuck {α : Type} : Process X α := Dialogue.ask (I := sharedInterface X) .stuck Empty.elim

end Process

end RpkiAuthority
