import RpkiAuthority.Engine.World

/-!
# Scripts

To try out an engine, a handler can be written down as a script: a list of steps that are taken at
each command of its type up to the first that fails. Scripts note what they see, and they can do
what handlers must not: change an authority behind the back of their own transaction. Notes, and the
number of times that steps were reached, are the part of the world that scripts talk to. There are
also listeners that note events, and one that fails.
-/

namespace RpkiAuthority

/-- What a script or listener notes. -/
inductive Note where
  /-- An event that a listener was given, with the number of commands running. -/
  | heard (listener : String) (depth : Nat) (event : AuthorityEvent)
  /-- The surroundings of a step. -/
  | surroundings (depth : Nat) (context : LogContext) (version : Except CommandError VersionedId)
      (announcements attempts : Nat)
  /-- An authority as the transaction sees it. -/
  | seen (ca : CertificateAuthority)
  /-- The name of an authority that was removed. -/
  | removed (name : String)
  /-- What became of a command. -/
  | status (s : CommandStatus)
  /-- The error of a command after which the script went on. -/
  | failure (e : CommandError)
  /-- Whether a change behind the back of the transaction was committed. -/
  | interfered (committed : Bool)

/-- A question of a script. -/
inductive ScriptQuery where
  | note (n : Note)
  /-- How often the step of a number was reached before. -/
  | reached (step : List Nat)
  /-- The committed authority. -/
  | committed (id : AggregateId)
  /-- Change or remove an authority in a transaction of its own, without a lock. -/
  | interfere (id : AggregateId) (removing : Bool)

/-- The interface of scripts. -/
def scriptInterface : Interface where
  Query := ScriptQuery
  Reply
    | .note _ => Unit
    | .reached _ => Nat
    | .committed _ => Option CertificateAuthority
    | .interfere _ _ => Bool

/-- What scripts leave behind. -/
structure ScriptState where
  /-- The notes, the first one first. -/
  notes : List Note
  /-- How often steps were reached. -/
  reached : OrdMap (List Nat) Nat

/-- What a step of a script does. -/
inductive ScriptStep where
  | lock (mode : LockMode)
  | lockAndIncrement
  | markUpdated
  /-- Ask for alerts about changes of ROAs. -/
  | notify
  | look
  /-- Add a new authority. -/
  | insert
  | remove
  | deleteRecords
  | noteSurroundings
  /-- Run a command, and go on if it fails if so told. -/
  | execute (draft : Draft) (goOn : Bool)
  | publish (event : AuthorityEvent)
  | record (event : AuthorityEvent)
  /-- Do what the handler of this library for a type of command does. -/
  | delegate (type : CommandType)
  | interfere (removing : Bool)
  | fail (e : CommandError)

/-- A step of a script. -/
structure ScriptItem where
  step : ScriptStep
  /-- The authority it is about, if that is not the authority of the command. -/
  id : Option AggregateId
  /-- How often the step is taken at most. -/
  times : Option Nat

namespace Script

/-- The name of authorities that scripts add. -/
def insertedName : String := "scripted"

/-- Notes something. -/
def note (n : Note) : Action scriptInterface Unit := Action.outside (X := scriptInterface) (.note n)

/-- Takes a step about an authority. -/
def take (c : Command) (id : AggregateId) : ScriptStep → Action scriptInterface Unit
  | .lock mode => Action.lock id mode
  | .lockAndIncrement => Action.lockAndIncrement id
  | .markUpdated => Action.update id CertificateAuthority.markUpdated
  | .notify =>
    Action.update id fun ca => ca.setAlerts { ca.alerts with notifyOnRoaChanges := true }
  | .look => do note (.seen (← Action.get id))
  | .insert => do
    let uuid ← Action.ask .freshUuid
    Action.insert (CertificateAuthority.create id insertedName uuid)
  | .remove => do note (.removed (← Action.remove id).name)
  | .deleteRecords => Action.deleteRecords id
  | .noteSurroundings => do
    let depth ← Action.ask .depth
    let context ← Action.ask .logContext
    let version ← Action.ask (.versionedId id)
    let announcements ← Action.ask .announcements
    let settings ← Action.ask .settings
    note (.surroundings depth context version announcements.size settings.commands.maxAttempts)
  | .execute draft goOn => do
    let found ← Action.outside (X := scriptInterface) (.committed draft.id)
    match ← Action.ask (.execute (draft.resolve found)) with
    | .ok status => note (.status status)
    | .error e => if goOn then note (.failure e) else throw e
  | .publish event => Action.publish event
  | .record event => Action.record event
  | .delegate type => Handlers.standard type c
  | .interfere removing => do
    note (.interfered (← Action.outside (X := scriptInterface) (.interfere id removing)))
  | .fail e => throw e

/-- Takes a step unless it was taken as often as it may be. -/
def takeItem (c : Command) (number : List Nat) (item : ScriptItem) :
    Action scriptInterface Unit := do
  let id := item.id.getD c.authority.id
  match item.times with
  | none => take c id item.step
  | some times =>
    let before : Nat ← Action.outside (X := scriptInterface) (.reached number)
    if before < times then take c id item.step

/-- Takes the steps of a script from one on. -/
def takeItems (c : Command) (script : Nat) :
    Nat → List ScriptItem → Action scriptInterface Unit
  | _, [] => return
  | index, item :: rest => do
    takeItem c [script, index] item
    takeItems c script (index + 1) rest

/-- The handler of a script, which has a number of its own. -/
def handler (script : Nat) (items : List ScriptItem) : Handler scriptInterface :=
  fun c => takeItems c script 0 items

/-- The listener of a name that notes every event. -/
def recorder (name : String) : Listener scriptInterface := fun event => do
  note (.heard name (← Action.ask .depth) event)

/-- The listener that fails when a certificate was revoked. -/
def failing : Listener scriptInterface := fun event => do
  match event with
  | .incomingCertificateRevoked _ _ => throw (.custom "listener failed")
  | _ => return

/-! ### What scripts talk to -/

/-- Changes or removes an authority in a transaction of its own, without a lock. -/
def interfereWith (store : Store CertificateAuthority) (id : AggregateId) (removing : Bool) :
    Bool × Store CertificateAuthority :=
  let (tx, store) := store.begin
  let tx := store.act tx id <|
    if removing then Entry.remove else Entry.update CertificateAuthority.markUpdated
  match store.commit tx with
  | .ok (_, after) => (true, after.release tx.id)
  | .error _ => (false, store.release tx.id)

/-- Answers the questions of scripts. -/
def answer : Outside scriptInterface ScriptState
  | .note n, w => ((), { w with outside := { w.outside with notes := w.outside.notes ++ [n] } })
  | .reached step, w =>
    let before := (w.outside.reached.find? step).getD 0
    (before, { w with
      outside := { w.outside with reached := w.outside.reached.insert step (before + 1) } })
  | .committed id, w => (w.store.get? id, w)
  | .interfere id removing, w =>
    let (committed, store) := interfereWith w.store id removing
    (committed, { w with store := store })

end Script

end RpkiAuthority
