import RpkiAuthority.Engine.Basic
import RpkiAuthority.Engine.Process
import RpkiAuthority.Engine.Propagation

/-!
# Running commands inside a transaction

While a command runs, and others inside it, one state keeps the transaction, the audiences of
events, the events of each running command, and what is to be written to the audit log when the
transaction is committed. A question of an action is answered from this state, with a step on what
is shared where the state does not know the answer.

Commands run inside of commands and events are delivered inside of deliveries. How deep is bounded
by a number: `Engine.nesting n` runs what needs no more than `n` levels below it, and is stuck
otherwise. More levels never change what a command does that is not stuck.
-/

namespace RpkiAuthority

/-- What is kept while a command runs. -/
structure RunState (X : Interface) where
  tx : Transaction CertificateAuthority
  scope : Propagation (Listener X)
  /-- The descriptions of the events of each running command, the innermost command first and the
  first event first. -/
  frames : List (List String)
  /-- The records of the commands that have run, in the order in which they ended. -/
  records : List PendingRecord
  /-- The authorities whose records are to be marked as deleted. -/
  deletions : List AggregateId
  logContext : LogContext

namespace RunState

variable {X : Interface}

/-- The state at the start of a transaction. -/
def new (tx : Transaction CertificateAuthority) (logContext : LogContext) : RunState X :=
  ⟨tx, .new, [], [], [], logContext⟩

/-- Notes an event of the innermost running command. -/
def noteEvent (c : RunState X) (event : AuthorityEvent) : RunState X :=
  match c.frames with
  | frame :: outer => { c with frames := (frame ++ [event.text]) :: outer }
  | [] => c

end RunState

/-- A process that works on the state of a running command. -/
abbrev Running (X : Interface) := StateT (RunState X) (Process X)

namespace Running

variable {X : Interface}

/-- Takes one step on what is shared. -/
def step (q : SharedQuery X) : Running X ((sharedInterface X).Reply q) :=
  StateT.lift (Process.step q)

/-- The transaction's copy of an authority, made when it is looked at for the first time. -/
def copyOf (id : AggregateId) : Running X (Entry CertificateAuthority) := do
  let c ← get
  match c.tx.entries.find? id with
  | some e => return e
  | none =>
    let found ← step (.read id)
    let e := Entry.ofFound found
    set { c with tx := c.tx.setEntry id e }
    return e

/-- Replaces the transaction's copy of an authority. -/
def setCopy (id : AggregateId) (e : Entry CertificateAuthority) : Running X Unit :=
  modify fun c => { c with tx := c.tx.setEntry id e }

/-- Locks an authority. -/
def lock (id : AggregateId) (mode : LockMode) : Running X (Except CommandError Unit) := do
  match ← step (.acquire (← get).tx.id id mode) with
  | .ok () => return .ok ()
  | .error e => return .error (.storage e)

/-- Looks at an authority and lets the transaction act on its copy of it, if there is one. -/
def onCopy (id : AggregateId)
    (action : Entry CertificateAuthority → Entry CertificateAuthority) :
    Running X (Except CommandError CertificateAuthority) := do
  let e ← copyOf id
  match e.working with
  | some ca =>
    setCopy id (action e)
    return .ok ca
  | none => return .error (.unknownAuthority id)

end Running

/-- How commands are run and events are delivered inside of others. -/
structure Nesting (X : Interface) where
  run : Command → Running X (Except CommandError CommandStatus)
  deliver : AuthorityEvent → Running X (Except CommandError Unit)

namespace Engine

open Running

variable {X : Interface}

/-- The answer to a question of an action. -/
def answer (e : Engine X) (inside : Nesting X) :
    (q : ActionQuery X) → Running X ((actionInterface X).Reply q)
  | .lock id mode => Running.lock id mode
  | .lockAndIncrement id => do
    match ← Running.lock id .exclusive with
    | .error err => return .error err
    | .ok () =>
      setCopy id (← copyOf id).force
      return .ok ()
  | .get id => onCopy id fun entry => entry
  | .update id change => do return (← onCopy id (Entry.update change)).map fun _ => ()
  | .versionedId id => do
    match (← copyOf id).pendingVersion with
    | some version => return .ok ⟨id, version⟩
    | none => return .error (.unknownAuthority id)
  | .insert ca => do
    let entry ← copyOf ca.id
    if entry.working.isSome then return .error (.authorityExists ca.id)
    setCopy ca.id (entry.insert ca)
    return .ok ()
  | .remove id => onCopy id Entry.remove
  | .deleteRecords id => modify fun c => { c with deletions := c.deletions ++ [id] }
  | .publish event => do
    modify fun c => c.noteEvent event
    inside.deliver event
  | .record event => modify fun c => c.noteEvent event
  | .execute command => inside.run command
  | .log level message => do step (.log ⟨level, (← get).logContext, message⟩)
  | .depth => do return (← get).frames.length
  | .logContext => do return (← get).logContext
  | .settings => return e.settings
  | .announcements => step .announcements
  | .freshUuid => step .freshUuid
  | .outside q => step (.outside q)

/-- Runs an action. -/
def act {α : Type} (e : Engine X) (inside : Nesting X) (a : Action X α) :
    Running X (Except CommandError α) :=
  Dialogue.conduct (e.answer inside) a.run

/-- Refuses a command of a user that is based on a version which other users have changed since. -/
def checkVersion (c : Command) : Running X (Except CommandError Unit) := do
  if c.group = .system then return .ok ()
  match (← copyOf c.authority.id).working with
  | none => return .ok ()
  | some ca =>
    if ca.version ≤ c.authority.version then return .ok ()
    let records ← step (.recordsSince c.authority)
    let conflicting := records.filter fun r => r.group == .user
    if conflicting.isEmpty then return .ok ()
    return .error <|
      .concurrentModification c.authority.id ca.version c.authority.version conflicting

/-- Subscribes listeners one after the other; the numbers of their subscriptions. -/
def subscribeAll (listeners : List (Listener X)) (scope : Propagation (Listener X)) :
    List Nat × Propagation (Listener X) :=
  listeners.foldl
    (fun (ids, scope) listener =>
      let (id, scope) := scope.subscribe listener
      (ids ++ [id], scope))
    ([], scope)

/-- Runs the handler of a command with an audience and a list of events of its own; they are gone
when it has ended. The second component has the events. -/
def handle (e : Engine X) (inside : Nesting X) (c : Command) :
    Running X (Except CommandError Unit × List String) := do
  let before ← get
  let (audience, scope) := before.scope.enter
  let (subscriptions, scope) := subscribeAll e.listeners scope
  set { before with scope := scope, frames := [] :: before.frames }
  let result ← e.act inside (e.handlers c.type c)
  let after ← get
  set { after with
    frames := after.frames.drop 1
    scope := (subscriptions.foldl Propagation.cancel after.scope).leave audience }
  return (result, after.frames.headD [])

/-- The version of an authority as far as it is known when a command has ended. -/
def versionAfter (c : Command) : Running X Nat := do
  match (← copyOf c.authority.id).pendingVersion with
  | some version => return version
  | none =>
    match ← step (.read c.authority.id) with
    | some ca => return ca.version
    | none => return c.authority.version

/-- Runs a command. A record is kept of every command with effect that was sent by a user or led to
events. -/
def run (e : Engine X) (inside : Nesting X) (c : Command) :
    Running X (Except CommandError CommandStatus) := do
  match ← checkVersion c with
  | .error err => return .error err
  | .ok () =>
    let (result, events) ← e.handle inside c
    match result with
    | .error .noEffect => return .ok ⟨false, ⟨c.authority.id, ← versionAfter c⟩⟩
    | .error err => return .error err
    | .ok () =>
      let version ← versionAfter c
      if c.group = .user ∨ !events.isEmpty then
        modify fun ctx => { ctx with records := ctx.records ++ [⟨c, version, events⟩] }
      return .ok ⟨true, ⟨c.authority.id, version⟩⟩

/-- Delivers an event to listeners up to the first that fails. -/
def deliverTo (e : Engine X) (inside : Nesting X) (event : AuthorityEvent) :
    List (Listener X) → Running X (Except CommandError Unit)
  | [] => return .ok ()
  | listener :: rest => do
    match ← e.act inside (listener event) with
    | .ok () => e.deliverTo inside event rest
    | .error err => return .error err

/-- Delivers an event to the listeners subscribed now. -/
def deliver (e : Engine X) (inside : Nesting X) (event : AuthorityEvent) :
    Running X (Except CommandError Unit) := do
  e.deliverTo inside event (← get).scope.listeners

/-- Runs what needs at most the given number of levels below it. -/
def nesting (e : Engine X) : Nat → Nesting X
  | 0 => ⟨fun _ => StateT.lift Process.stuck, fun _ => StateT.lift Process.stuck⟩
  | levels + 1 => ⟨e.run (e.nesting levels), e.deliver (e.nesting levels)⟩

end Engine

end RpkiAuthority
