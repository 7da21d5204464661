import RpkiAuthority.Authority.Command
import RpkiAuthority.Authority.Event
import RpkiAuthority.Config.Settings
import RpkiAuthority.Engine.Dialogue
import RpkiAuthority.Engine.Error
import RpkiAuthority.Log.Line
import RpkiAuthority.Storage.Store

/-!
# Actions

What a handler does with a command, and a listener with an event, is an action: a program over the
transaction and the events of the running command. Actions see authorities only through the
transaction. They may also ask questions of an interface of their own, about things outside of the
engine; the actions of this library do not.
-/

namespace RpkiAuthority

instance : Aggregate CertificateAuthority where
  id := CertificateAuthority.id
  version := CertificateAuthority.version
  withVersion v ca := { ca with version := v }

/-- What became of a command. -/
structure CommandStatus where
  /-- Whether the command changed something. -/
  hasEffect : Bool
  /-- The authority at the version it has after the command. -/
  authority : VersionedId
  deriving DecidableEq, Repr

/-- What an action can ask for. -/
inductive ActionQuery (X : Interface) where
  /-- Lock an authority until the end of the transaction. -/
  | lock (id : AggregateId) (mode : LockMode)
  /-- Lock an authority and increment its version in any case. -/
  | lockAndIncrement (id : AggregateId)
  /-- Look at an authority. -/
  | get (id : AggregateId)
  /-- Change an authority. -/
  | update (id : AggregateId) (change : CertificateAuthority → CertificateAuthority)
  /-- The version that an authority will have after the transaction. -/
  | versionedId (id : AggregateId)
  | insert (ca : CertificateAuthority)
  | remove (id : AggregateId)
  /-- Mark the records of an authority as deleted when the transaction is committed. -/
  | deleteRecords (id : AggregateId)
  /-- Note an event for the record and deliver it. -/
  | publish (event : AuthorityEvent)
  /-- Note an event for the record. -/
  | record (event : AuthorityEvent)
  /-- Run another command in the same transaction. -/
  | execute (command : Command)
  | log (level : LogLevel) (message : String)
  /-- How many commands are running, one inside the other. -/
  | depth
  /-- What is named in log lines. -/
  | logContext
  | settings
  | announcements
  | freshUuid
  /-- Something outside of the engine. -/
  | outside (q : X.Query)

/-- The interface of actions. -/
def actionInterface (X : Interface) : Interface where
  Query := ActionQuery X
  Reply
    | .lock _ _ | .lockAndIncrement _ | .insert _ | .publish _ | .update _ _ =>
      Except CommandError Unit
    | .get _ | .remove _ => Except CommandError CertificateAuthority
    | .versionedId _ => Except CommandError VersionedId
    | .execute _ => Except CommandError CommandStatus
    | .deleteRecords _ | .record _ | .log _ _ => Unit
    | .depth => Nat
    | .logContext => LogContext
    | .settings => Settings
    | .announcements => AnnouncementIndex
    | .freshUuid => Uuid
    | .outside q => X.Reply q

/-- A program of a handler or listener. -/
abbrev Action (X : Interface) := ExceptT CommandError (Dialogue (actionInterface X))

namespace Action

variable {X : Interface}

/-- Asks a question that is always answered. -/
def ask (q : ActionQuery X) : Action X ((actionInterface X).Reply q) :=
  ExceptT.lift (Dialogue.query (I := actionInterface X) q)

/-- Locks an authority until the end of the transaction. -/
def lock (id : AggregateId) (mode : LockMode) : Action X Unit :=
  ExceptT.mk (Dialogue.query (I := actionInterface X) (.lock id mode))

/-- Locks an authority and increments its version in any case. -/
def lockAndIncrement (id : AggregateId) : Action X Unit :=
  ExceptT.mk (Dialogue.query (I := actionInterface X) (.lockAndIncrement id))

/-- The authority as the transaction sees it. -/
def get (id : AggregateId) : Action X CertificateAuthority :=
  ExceptT.mk (Dialogue.query (I := actionInterface X) (.get id))

/-- Changes an authority. -/
def update (id : AggregateId) (change : CertificateAuthority → CertificateAuthority) :
    Action X Unit :=
  ExceptT.mk (Dialogue.query (I := actionInterface X) (.update id change))

/-- The version that an authority will have after the transaction. -/
def versionedId (id : AggregateId) : Action X VersionedId :=
  ExceptT.mk (Dialogue.query (I := actionInterface X) (.versionedId id))

/-- Adds an authority. -/
def insert (ca : CertificateAuthority) : Action X Unit :=
  ExceptT.mk (Dialogue.query (I := actionInterface X) (.insert ca))

/-- Removes an authority. -/
def remove (id : AggregateId) : Action X CertificateAuthority :=
  ExceptT.mk (Dialogue.query (I := actionInterface X) (.remove id))

/-- Notes an event for the record and delivers it. -/
def publish (event : AuthorityEvent) : Action X Unit :=
  ExceptT.mk (Dialogue.query (I := actionInterface X) (.publish event))

/-- Runs another command in the same transaction. -/
def execute (command : Command) : Action X CommandStatus :=
  ExceptT.mk (Dialogue.query (I := actionInterface X) (.execute command))

/-- Marks the records of an authority as deleted when the transaction is committed. -/
def deleteRecords (id : AggregateId) : Action X Unit := ask (.deleteRecords id)

/-- Notes an event for the record. -/
def record (event : AuthorityEvent) : Action X Unit := ask (.record event)

/-- Writes a line to the log. -/
def log (level : LogLevel) (message : String) : Action X Unit := ask (.log level message)

/-- Asks for something outside of the engine. -/
def outside (q : X.Query) : Action X (X.Reply q) := ask (.outside q)

end Action

/-- What is done with the commands of one type. -/
abbrev Handler (X : Interface) := Command → Action X Unit

/-- What is done with events. -/
abbrev Listener (X : Interface) := AuthorityEvent → Action X Unit

end RpkiAuthority
