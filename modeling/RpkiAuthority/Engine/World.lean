import RpkiAuthority.Engine.Execution
import RpkiAuthority.History.Audit

/-!
# The world of commands

What commands share: the store, the audit log, the metrics, the announcements and the log. Each step
of a process acts on it at once (`World.step`). A process that runs alone takes all its steps one
after the other (`World.runAlone`); a lock that is not free is then never going to be, so waiting
for it ends with giving up.

Time and chance are no part of the world. Its clock stands still, nothing takes any time, numbers
drawn are zero, and UUIDs are numbered through.
-/

namespace RpkiAuthority

/-- What commands share. -/
structure World (S : Type) where
  store : Store CertificateAuthority
  audit : AuditLog
  metrics : CommandMetrics
  announcements : AnnouncementIndex
  /-- The lines of the log, the first one first. -/
  log : List LogLine
  now : Timestamp
  nextUuid : Nat
  /-- The state of things outside of the engine. -/
  outside : S

/-- How questions about things outside of the engine are answered. -/
abbrev Outside (X : Interface) (S : Type) := (q : X.Query) → World S → X.Reply q × World S

/-- There is nothing outside of the engine. -/
def Outside.none : Outside Interface.none Unit := fun q => q.elim

namespace World

variable {X : Interface} {S : Type} {α : Type}

/-- The world before anything has happened. -/
def initial (filter : BgpFilter) (outside : S) : World S where
  store := .empty
  audit := .empty
  metrics := .initial
  announcements := .empty filter
  log := []
  now := .epoch
  nextUuid := 0
  outside := outside

/-- Writes the record of a command. The version is the committed one where it is known. -/
def addRecord (now : Timestamp) (versions : VersionMap) (audit : AuditLog)
    (r : PendingRecord) : AuditLog :=
  let id := r.command.authority.id
  (audit.add now ⟨id, (versions.find? id).getD r.version⟩ r.command r.events).2

/-- Commits a transaction and writes what goes with it to the audit log. -/
def commit (w : World S) (tx : Transaction CertificateAuthority) (deletions : List AggregateId)
    (records : List PendingRecord) : Except StorageError (World S) :=
  match w.store.commit tx with
  | .error e => .error e
  | .ok (versions, store) =>
    let marked := deletions.foldl (fun audit id => (audit.delete w.now id).2) w.audit
    .ok { w with
      store := store
      audit := records.foldl (addRecord w.now versions) marked }

/-- Counts something. Since the clock stands still nothing takes any time. -/
def measure (w : World S) : Measurement → World S
  | .duration type => { w with metrics := w.metrics.recordDuration type 0 }
  | .retry => { w with metrics := w.metrics.recordRetry }
  | .outcome o => { w with metrics := w.metrics.recordOutcome o }

/-- Takes a step. There is none to take for a process that is stuck. -/
def step (outside : Outside X S) :
    (q : SharedQuery X) → World S → Option ((sharedInterface X).Reply q × World S)
  | .start, w =>
    let (tx, store) := w.store.begin
    some (tx, { w with store := store })
  | .acquire tx id mode, w =>
    match w.store.lock id tx mode with
    | .ok store => some (.ok (), { w with store := store })
    | .error e => some (.error e, w)
  | .read id, w => some (w.store.get? id, w)
  | .commit tx deletions records, w =>
    match w.commit tx deletions records with
    | .ok w => some (.ok (), w)
    | .error e => some (.error e, w)
  | .release tx, w => some ((), { w with store := w.store.release tx })
  | .recordsSince v, w => some (w.audit.since v, w)
  | .log line, w => some ((), { w with log := w.log ++ [line] })
  | .measure m, w => some ((), w.measure m)
  | .draw _, w => some ((0 : Nat), w)
  | .freshUuid, w => some (Uuid.ofNat w.nextUuid, { w with nextUuid := w.nextUuid + 1 })
  | .announcements, w => some (w.announcements, w)
  | .outside q, w => some (outside q w)
  | .stuck, _ => none

/-- Runs a process that is alone. -/
def runAlone (outside : Outside X S) (p : Process X α) : StateT (World S) Option α :=
  Dialogue.conduct (I := sharedInterface X) (fun q => step outside q) p

/-- Executes a command that is alone. -/
def execute (outside : Outside X S) (e : Engine X) (levels : Nat) (c : Command) (w : World S) :
    Option (Except CommandError CommandStatus × World S) :=
  (runAlone outside (e.execute levels c)).run w

/-- The metric of the announcements. -/
def announcementMetric : Metric :=
  ⟨"bgp_announcements", "number of indexed BGP announcements", .gauge⟩

/-- The metric of the authorities. -/
def authorityMetric : Metric := ⟨"cas", "number of certificate authorities", .gauge⟩

/-- All metrics as text, line by line. -/
def metricLines (w : World S) : List String :=
  w.metrics.lines ++ announcementMetric.single w.announcements.size.repr ++
    authorityMetric.single w.store.ids.length.repr

/-- Replaces the announcements. -/
def loadAnnouncements (w : World S) (context : LogContext) (entries : List RisEntry) : World S :=
  let index := w.announcements.reset entries
  { w with
    announcements := index
    log := w.log ++ [⟨.info, context, index.loadedMessage⟩] }

/-- The announcements that share addresses with what an authority holds. -/
def overlappingHeld (w : World S) (id : AggregateId) : Option (OrdSet RisEntry) :=
  (w.store.get? id).map fun ca => w.announcements.overlapping ca.certified

end World

end RpkiAuthority
