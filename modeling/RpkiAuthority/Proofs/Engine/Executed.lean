import RpkiAuthority.Proofs.Engine.Alone
import RpkiAuthority.Proofs.Engine.Course

/-!
# What an executed command did

A command that is executed alone, with the handlers and listeners of this library, always comes to
an end, and there are three ends: it fails and leaves what is committed as it is, it finds nothing
to do and leaves what is committed as it is, or its effect on the authority found is committed,
with one record if it was sent by a user or led to events (`Command.Outcome`).

`Engine.execute_standard` says so of the whole execution, with all its attempts. It is the one thing
that has to be known about the engine where the effects of commands are followed over a run.
-/

namespace RpkiAuthority

variable {X : Interface} {S : Type} {outside : Outside X S}

namespace World

/-- **What is committed is the same**: the authorities and the audit log, with the clock that
records are dated by. -/
structure SameCommitted (w w' : World S) : Prop where
  aggregates : w'.store.aggregates = w.store.aggregates
  audit : w'.audit = w.audit
  now : w'.now = w.now

theorem SameCommitted.refl (w : World S) : SameCommitted w w := ⟨rfl, rfl, rfl⟩

theorem SameCommitted.trans {u w w' : World S} (h : SameCommitted u w) (h' : SameCommitted w w') :
    SameCommitted u w' :=
  ⟨h'.aggregates.trans h.aggregates, h'.audit.trans h.audit, h'.now.trans h.now⟩

theorem SameCommitted.get? {w w' : World S} (h : SameCommitted w w') (id : AggregateId) :
    w'.store.get? id = w.store.get? id := by
  rw [Store.get?, h.aggregates, Store.get?]

/-- **Nothing is done to the store**, and nothing to the audit log. -/
structure SameStore (w w' : World S) : Prop where
  store : w'.store = w.store
  audit : w'.audit = w.audit
  now : w'.now = w.now

theorem SameStore.sameCommitted {w w' : World S} (h : SameStore w w') : SameCommitted w w' :=
  ⟨by rw [h.store], h.audit, h.now⟩

end World

/-- The version of an authority after a change. One that is deleted keeps its version. -/
def Change.version (found : Option CertificateAuthority) (change : Change) : Nat :=
  match found with
  | none => 0
  | some ca => if change.authority.isSome then ca.version + 1 else ca.version

namespace Command

/-- What is wrong with the version that a command is based on. -/
def stale (c : Command) (w : World S) : Option CommandError :=
  if c.group = .system then none
  else
    match w.store.get? c.authority.id with
    | none => none
    | some ca =>
      if ca.version ≤ c.authority.version then none
      else c.conflict ca (w.audit.since c.authority)

/-- The authorities after the effect of a command is written. -/
def writes (c : Command) (version : Nat) (change : Change)
    (aggregates : OrdMap AggregateId CertificateAuthority) :
    OrdMap AggregateId CertificateAuthority :=
  match change.authority with
  | some ca => aggregates.insert c.authority.id (Aggregate.withVersion version ca)
  | none => aggregates.erase c.authority.id

/-- What is written of the authority of the command. -/
theorem find?_writes_self (c : Command) (version : Nat) (change : Change)
    (aggregates : OrdMap AggregateId CertificateAuthority) :
    (c.writes version change aggregates).find? c.authority.id =
      change.authority.map (Aggregate.withVersion version) := by
  rw [writes]
  cases change.authority with
  | none => exact OrdMap.find?_erase_self _ _
  | some ca => exact OrdMap.find?_insert_self _ _ _

/-- The other authorities are as they were. -/
theorem find?_writes_of_ne (c : Command) (version : Nat) (change : Change)
    (aggregates : OrdMap AggregateId CertificateAuthority) {id : AggregateId}
    (h : id ≠ c.authority.id) :
    (c.writes version change aggregates).find? id = aggregates.find? id := by
  rw [writes]
  cases change.authority with
  | none => exact OrdMap.find?_erase_of_ne _ h
  | some ca => exact OrdMap.find?_insert_of_ne _ h _

/-- What is written of an effect is the authority it leaves, at its new version, and the others as
they were. -/
theorem find?_writes {c : Command} {version : Nat} {change : Change}
    {aggregates : OrdMap AggregateId CertificateAuthority} {id : AggregateId}
    {ca : CertificateAuthority} (h : (c.writes version change aggregates).find? id = some ca) :
    (id = c.authority.id ∧
        ∃ a, change.authority = some a ∧ ca = Aggregate.withVersion version a) ∨
      id ≠ c.authority.id ∧ aggregates.find? id = some ca := by
  by_cases hid : id = c.authority.id
  · subst hid
    rw [c.find?_writes_self] at h
    obtain ⟨a, ha, rfl⟩ := Option.map_eq_some_iff.mp h
    exact Or.inl ⟨rfl, a, ha, rfl⟩
  · rw [c.find?_writes_of_ne _ _ _ hid] at h
    exact Or.inr ⟨hid, h⟩

/-- The audit log after the effect of a command is written: if the authority was deleted its records
are marked, and then the command is recorded if it is to be. -/
def recordsIn (c : Command) (version : Nat) (change : Change) (now : Timestamp) (audit : AuditLog) :
    AuditLog :=
  let marked := if change.authority.isNone then (audit.delete now c.authority.id).2 else audit
  if c.group = .user ∨ !change.events.isEmpty then
    (marked.add now ⟨c.authority.id, version⟩ c (change.events.map AuthorityEvent.text)).2
  else marked

/-- **The ends of a command** that is executed alone. -/
inductive Outcome (c : Command) (w : World S) : Except CommandError CommandStatus → World S → Prop
  | failed {err : CommandError} {w' : World S} (same : w.SameCommitted w') :
      Outcome c w (.error err) w'
  | idle {ca : CertificateAuthority} {w' : World S}
      (found : w.store.get? c.authority.id = some ca) (same : w.SameCommitted w') :
      Outcome c w (.ok ⟨false, ⟨c.authority.id, ca.version⟩⟩) w'
  | effective {uuid : Uuid} {change : Change} {w' : World S} (fresh : c.stale w = none)
      (allowed : c.refusal = none)
      (effect : (c.effect uuid (w.store.get? c.authority.id)).outcome = .ok change)
      (aggregates : w'.store.aggregates =
        c.writes (change.version (w.store.get? c.authority.id)) change w.store.aggregates)
      (audit : w'.audit =
        c.recordsIn (change.version (w.store.get? c.authority.id)) change w.now w.audit)
      (now : w'.now = w.now) :
      Outcome c w (.ok ⟨true, ⟨c.authority.id, change.version (w.store.get? c.authority.id)⟩⟩) w'

/-- The number that a command is going to draw for an authority that it creates. -/
def drawn (c : Command) (w : World S) : Uuid :=
  match c.details with
  | .createCertificateAuthority _ => Uuid.ofNat w.nextUuid
  | _ => Uuid.ofNat 0

/-- What a command has seen of its authority before it takes the lock. -/
def seenIn (c : Command) (w : World S) : Option (Option CertificateAuthority) :=
  if c.group = .system then none else some (w.store.get? c.authority.id)

end Command

/-! ### The parts of a course -/

namespace World

variable {w : World S} {c : Command}

theorem runAlone_step_bind {α : Type} {q : SharedQuery X} {r : (sharedInterface X).Reply q}
    {w u : World S} (h : step outside q w = some (r, u))
    (f : (sharedInterface X).Reply q → Process X α) :
    runAlone outside (Process.step q >>= f) w = runAlone outside (f r) u := by
  rw [runAlone_bind, runAlone_step, h]
  rfl

/-- Checking the version and looking at the authority leave the world as it is. -/
theorem runAlone_admission (w : World S) (c : Command) :
    runAlone outside c.admission w = some ((c.stale w, c.seenIn w), w) := by
  rw [Command.admission, Command.stale, Command.seenIn]
  by_cases hgroup : c.group = .system
  · rw [if_pos hgroup, if_pos hgroup, if_pos hgroup]
    rfl
  · rw [if_neg hgroup, if_neg hgroup, if_neg hgroup]
    refine (runAlone_step_bind (q := .read c.authority.id) rfl _).trans ?_
    rw [runAlone_bind]
    cases w.store.get? c.authority.id with
    | none => rfl
    | some ca =>
      rw [Command.staleness]
      dsimp only
      split
      · rfl
      · rw [runAlone_step_bind (q := .recordsSince c.authority) rfl]
        rfl

theorem runAlone_lookUp (w : World S) (c : Command) :
    runAlone outside (Process.lookUp c.authority.id (c.seenIn w)) w =
      some (w.store.get? c.authority.id, w) := by
  rw [Command.seenIn]
  split
  · exact runAlone_step (.read c.authority.id) w
  · rfl

theorem runAlone_drawUuid (outside : Outside X S) (w : World S) (c : Command) :
    ∃ u, runAlone outside c.drawUuid w = some (c.drawn w, u) ∧ SameStore w u := by
  cases h : c.details with
  | createCertificateAuthority name =>
    rw [Command.drawUuid, Command.drawn, h]
    exact ⟨_, runAlone_step .freshUuid w, rfl, rfl, rfl⟩
  | _ =>
    rw [Command.drawUuid, Command.drawn, h]
    exact ⟨w, rfl, rfl, rfl, rfl⟩

theorem runAlone_say (outside : Outside X S) (context : LogContext)
    (lines : List (LogLevel × String)) (w : World S) :
    ∃ u, runAlone outside (Process.say context lines) w = some ((), u) ∧ SameStore w u := by
  induction lines generalizing w with
  | nil => exact ⟨w, rfl, rfl, rfl, rfl⟩
  | cons line rest ih =>
    obtain ⟨level, message⟩ := line
    obtain ⟨u, hu, hsame⟩ := ih { w with log := w.log ++ [⟨level, context, message⟩] }
    refine ⟨u, ?_, hsame.store, hsame.audit, hsame.now⟩
    rw [Process.say]
    exact (runAlone_step_bind (q := .log ⟨level, context, message⟩) rfl _).trans hu

/-- A transaction that is given back leaves nothing but its locks released. -/
theorem runAlone_giveBack (outside : Outside X S) (tx : TxId) (err : CommandError) (w : World S) :
    runAlone outside (Process.giveBack tx err) w =
      some (.error err, { w with store := w.store.release tx }) :=
  runAlone_step_bind (q := .release tx) rfl _

/-! ### Writing a single authority -/

variable {tx : Transaction CertificateAuthority} {id : AggregateId}
  {entry : Entry CertificateAuthority}

theorem entries_setEntry (htx : tx.entries = OrdMap.empty) (id : AggregateId)
    (entry : Entry CertificateAuthority) :
    (tx.setEntry id entry).entries.entries = [(id, entry)] := by
  rw [Transaction.setEntry, htx]
  rfl

theorem versions_setEntry (htx : tx.entries = OrdMap.empty) :
    (tx.setEntry id entry).versions.find? id = entry.pendingVersion := by
  rw [Transaction.versions, entries_setEntry htx]
  cases h : entry.pendingVersion with
  | none => simp [h, OrdMap.ofList, OrdMap.find?_empty]
  | some version => simp [h, OrdMap.ofList]

/-- The world after a transaction with one copy is written, with marks and records. -/
def written (w : World S) (tx : Transaction CertificateAuthority) (id : AggregateId)
    (entry : Entry CertificateAuthority) (deletions : List AggregateId)
    (records : List PendingRecord) : World S :=
  { w with
    store := { w.store with aggregates := Store.writeEntry w.store.aggregates (id, entry) }
    audit := records.foldl (addRecord w.now (tx.setEntry id entry).versions)
      (deletions.foldl (fun audit id => (audit.delete w.now id).2) w.audit) }

/-- A transaction that has looked at one authority, and found it as it is, meets no conflict. -/
theorem commit_setEntry (htx : tx.entries = OrdMap.empty)
    (hbase : entry.base = (w.store.get? id).map CertificateAuthority.version)
    (deletions : List AggregateId) (records : List PendingRecord) :
    w.commit (tx.setEntry id entry) deletions records =
      .ok (w.written tx id entry deletions records) := by
  have hconflict : w.store.conflict? (tx.setEntry id entry) = none := by
    have hversion : w.store.version? id = entry.base := hbase.symm
    rw [Store.conflict?, entries_setEntry htx]
    simp [hversion]
  rw [commit, Store.commit, hconflict, entries_setEntry htx]
  rfl

/-- Such a transaction ends with its status, and its locks are released. -/
theorem runAlone_conclude (outside : Outside X S) (htx : tx.entries = OrdMap.empty)
    (hbase : entry.base = (w.store.get? id).map CertificateAuthority.version)
    (deletions : List AggregateId) (records : List PendingRecord) (status : CommandStatus) :
    runAlone outside (Process.conclude (tx.setEntry id entry) deletions records status) w =
      some (.ok status, { w.written tx id entry deletions records with
        store := (w.written tx id entry deletions records).store.release tx.id }) := by
  rw [Process.conclude]
  refine (runAlone_step_bind (q := .commit (tx.setEntry id entry) deletions records)
    (step_commit_ok (commit_setEntry htx hbase deletions records)) _).trans ?_
  exact runAlone_step_bind (q := .release tx.id) rfl _

/-- The version that a command ends at, read off the transaction's copy or off the store. -/
theorem runAlone_finalVersion (w : World S) (c : Command) (entry : Entry CertificateAuthority) :
    runAlone outside (c.finalVersion entry) w =
      some (entry.pendingVersion.getD
        (((w.store.get? c.authority.id).map CertificateAuthority.version).getD
          c.authority.version), w) := by
  rw [Command.finalVersion]
  cases entry.pendingVersion with
  | some version => rfl
  | none =>
    refine (runAlone_step_bind (q := .read c.authority.id) rfl _).trans ?_
    cases w.store.get? c.authority.id <;> rfl

/-! ### Whole courses -/

/-- Where there is nothing to do, nothing is written. -/
theorem runAlone_settle_noEffect (outside : Outside X S) (htx : tx.entries = OrdMap.empty)
    {ca : CertificateAuthority}
    (hfound : w.store.get? c.authority.id = some ca) :
    ∃ u, runAlone outside (c.settle tx (some ca) (.error .noEffect)) w =
        some (.ok ⟨false, ⟨c.authority.id, ca.version⟩⟩, u) ∧
      u.store = w.store.release tx.id ∧ u.audit = w.audit ∧ u.now = w.now := by
  rw [Command.settle, runAlone_bind, runAlone_finalVersion]
  exact ⟨_, runAlone_conclude outside htx
    (show (Entry.ofFound (some ca)).base =
      (w.store.get? c.authority.id).map CertificateAuthority.version by rw [hfound]; rfl) [] []
    ⟨false, ⟨c.authority.id, ca.version⟩⟩, rfl, rfl, rfl⟩

/-- A change that leaves an authority decides on its version. -/
theorem pendingVersion_entry (found : Option CertificateAuthority) (change : Change) :
    (change.entry found).pendingVersion =
      if change.authority.isSome then some (change.version found) else none := by
  obtain ⟨authority, events⟩ := change
  cases authority <;> cases found <;> rfl

theorem writeEntry_entry (found : Option CertificateAuthority) (change : Change)
    (aggregates : OrdMap AggregateId CertificateAuthority) :
    Store.writeEntry aggregates (c.authority.id, change.entry found) =
      c.writes (change.version found) change aggregates := by
  obtain ⟨authority, events⟩ := change
  cases authority <;> cases found <;> rfl

/-- Marks and records of a transaction with one change are those of the change. -/
theorem audit_written (htx : tx.entries = OrdMap.empty) (found : Option CertificateAuthority)
    (change : Change) :
    (w.written tx c.authority.id (change.entry found)
        (if change.authority.isNone then [c.authority.id] else [])
        (c.recorded (change.version found) change.events)).audit =
      c.recordsIn (change.version found) change w.now w.audit := by
  have hversion : ((tx.setEntry c.authority.id (change.entry found)).versions.find?
      c.authority.id).getD (change.version found) = change.version found := by
    rw [versions_setEntry htx, pendingVersion_entry]
    split <;> rfl
  have hmarked : (if change.authority.isNone then [c.authority.id] else []).foldl
      (fun audit id => (AuditLog.delete audit w.now id).2) w.audit =
      if change.authority.isNone then (w.audit.delete w.now c.authority.id).2 else w.audit := by
    split <;> rfl
  dsimp only [written]
  rw [hmarked, Command.recorded, Command.recordsIn]
  by_cases hrecorded : c.group = .user ∨ !change.events.isEmpty
  · rw [if_pos hrecorded, if_pos hrecorded, List.foldl_cons, List.foldl_nil, addRecord]
    dsimp only
    rw [hversion]
  · rw [if_neg hrecorded, if_neg hrecorded]
    rfl

/-- An effect is written as a whole. -/
theorem runAlone_settle_ok (outside : Outside X S) (htx : tx.entries = OrdMap.empty)
    {uuid : Uuid} {change : Change}
    (heffect : (c.effect uuid (w.store.get? c.authority.id)).outcome = .ok change) :
    ∃ u, runAlone outside (c.settle tx (w.store.get? c.authority.id) (.ok change)) w =
        some (.ok ⟨true, ⟨c.authority.id, change.version (w.store.get? c.authority.id)⟩⟩, u) ∧
      u.store = { w.store.release tx.id with
        aggregates :=
          c.writes (change.version (w.store.get? c.authority.id)) change w.store.aggregates } ∧
      u.audit = c.recordsIn (change.version (w.store.get? c.authority.id)) change w.now w.audit ∧
      u.now = w.now := by
  have hfinal : runAlone outside
      (c.finalVersion (change.entry (w.store.get? c.authority.id))) w =
        some (change.version (w.store.get? c.authority.id), w) := by
    rw [runAlone_finalVersion, pendingVersion_entry]
    cases hauthority : change.authority with
    | some ca => rfl
    | none =>
      -- only an authority that was found can be deleted
      cases hfound : w.store.get? c.authority.id with
      | some ca => simp [Change.version, hauthority]
      | none =>
        rw [hfound] at heffect
        obtain ⟨name, -, rfl⟩ := Command.effect_none_eq_ok heffect
        exact absurd hauthority (Option.some_ne_none _)
  rw [Command.settle, runAlone_bind, hfinal]
  exact ⟨_, runAlone_conclude outside htx
    (show (change.entry (w.store.get? c.authority.id)).base =
      (w.store.get? c.authority.id).map CertificateAuthority.version from rfl)
    (if change.authority.isNone then [c.authority.id] else [])
    (c.recorded (change.version (w.store.get? c.authority.id)) change.events)
    ⟨true, ⟨c.authority.id, change.version (w.store.get? c.authority.id)⟩⟩,
    congrArg (fun aggregates => { w.store.release tx.id with aggregates := aggregates })
      (writeEntry_entry _ _ _),
    audit_written htx _ _, rfl⟩

end World

namespace Command

open World

variable {c : Command} {w u w' : World S} {r : Except CommandError CommandStatus}
  {tx : Transaction CertificateAuthority}

theorem stale_of_same (h : w.SameCommitted u) (c : Command) : c.stale u = c.stale w := by
  rw [stale, stale, h.get?, h.audit]

theorem seenIn_of_same (h : w.SameCommitted u) (c : Command) : c.seenIn u = c.seenIn w := by
  rw [seenIn, seenIn, h.get?]

/-- What happened before an end, and changed nothing, may be left out. -/
theorem Outcome.of_same (h : w.SameCommitted u) (ho : c.Outcome u r w') : c.Outcome w r w' := by
  cases ho with
  | failed same => exact .failed (h.trans same)
  | idle found same => exact .idle (h.get? _ ▸ found) (h.trans same)
  | effective fresh allowed effect aggregates audit now =>
    rw [h.get?] at effect aggregates audit ⊢
    exact .effective (stale_of_same h c ▸ fresh) allowed effect (h.aggregates ▸ aggregates)
      (h.now ▸ h.audit ▸ audit) (now.trans h.now)

/-- What happens after an end, and changes nothing, may be left out. -/
theorem Outcome.then_same (ho : c.Outcome w r u) (h : u.SameCommitted w') : c.Outcome w r w' := by
  cases ho with
  | failed same => exact .failed (same.trans h)
  | idle found same => exact .idle found (same.trans h)
  | effective fresh allowed effect aggregates audit now =>
    exact .effective fresh allowed effect (h.aggregates.trans aggregates) (h.audit.trans audit)
      (h.now.trans now)

/-- There is something to do, or an error, where there is no authority. -/
theorem effect_none_ne_noEffect (c : Command) (uuid : Uuid) :
    (c.effect uuid none).outcome ≠ .error .noEffect := by
  rw [effect]
  split <;> simp [Effect.fails]

/-- Settling an effect comes to one of the three ends. -/
theorem settle_outcome (outside : Outside X S) (htx : tx.entries = OrdMap.empty)
    (hstale : c.stale w = none)
    (hrefusal : c.refusal = none) (uuid : Uuid) :
    ∃ r u, runAlone outside (c.settle tx (w.store.get? c.authority.id)
        (c.effect uuid (w.store.get? c.authority.id)).outcome) w = some (r, u) ∧
      c.Outcome w r u := by
  cases heffect : (c.effect uuid (w.store.get? c.authority.id)).outcome with
  | ok change =>
    obtain ⟨u, hu, hstore, haudit, hnow⟩ := runAlone_settle_ok outside htx heffect
    exact ⟨_, u, hu, .effective hstale hrefusal heffect (by rw [hstore]) haudit hnow⟩
  | error err =>
    by_cases herr : err = .noEffect
    · subst herr
      cases hfound : w.store.get? c.authority.id with
      | none =>
        rw [hfound] at heffect
        exact absurd heffect (effect_none_ne_noEffect c uuid)
      | some ca =>
        obtain ⟨u, hu, hstore, haudit, hnow⟩ := runAlone_settle_noEffect outside htx hfound
        exact ⟨_, u, hu, .idle hfound ⟨by rw [hstore]; rfl, haudit, hnow⟩⟩
    · have hsettle : c.settle (X := X) tx (w.store.get? c.authority.id) (.error err) =
          Process.giveBack tx.id err := by
        cases err <;> first | rfl | exact absurd rfl herr
      exact ⟨_, _, (congrArg (fun p => runAlone outside p w) hsettle).trans
        (runAlone_giveBack outside tx.id err w), .failed ⟨rfl, rfl, rfl⟩⟩

/-- Under the lock, or without getting it. -/
theorem critical_outcome (htx : tx.entries = OrdMap.empty) (hstale : c.stale w = none)
    (hrefusal : c.refusal = none) :
    ∃ r u, runAlone outside (c.critical tx (c.seenIn w)) w = some (r, u) ∧ c.Outcome w r u := by
  rw [critical]
  cases hlock : w.store.lock c.authority.id tx.id .exclusive with
  | error e =>
    rw [runAlone_step_bind (q := .acquire tx.id c.authority.id .exclusive)
      (step_acquire_error hlock)]
    exact ⟨_, _, runAlone_giveBack outside tx.id (.storage e) w, .failed ⟨rfl, rfl, rfl⟩⟩
  | ok s =>
    rw [runAlone_step_bind (q := .acquire tx.id c.authority.id .exclusive) (step_acquire_ok hlock)]
    dsimp only
    have hs : s.aggregates = w.store.aggregates := (Store.kept_of_lock hlock).1
    -- the lock, the number drawn and the log lines leave what is committed as it was
    have hsame₁ : w.SameCommitted { w with store := s } := ⟨hs, rfl, rfl⟩
    obtain ⟨w₂, hdraw, hsame₂⟩ := runAlone_drawUuid outside { w with store := s } c
    have hsame₂ : w.SameCommitted w₂ := hsame₁.trans hsame₂.sameCommitted
    obtain ⟨w₃, hsay, hsame₃⟩ := runAlone_say outside (Engine.contextOf c)
      (c.effect (c.drawn { w with store := s }) (w₂.store.get? c.authority.id)).lines w₂
    have hsame₃ : w₂.SameCommitted w₃ := hsame₃.sameCommitted
    obtain ⟨r, u, hu, ho⟩ := settle_outcome outside htx
      ((stale_of_same (hsame₂.trans hsame₃) c).trans hstale) hrefusal
      (c.drawn { w with store := s })
    refine ⟨r, u, ?_, .of_same (hsame₂.trans hsame₃) ho⟩
    rw [runAlone_bind, hdraw, Option.bind_some, runAlone_bind, ← seenIn_of_same hsame₂ c,
      runAlone_lookUp, Option.bind_some, runAlone_bind, hsay, Option.bind_some, ← hsame₃.get?]
    exact hu

/-- **Every course comes to one of the three ends.** -/
theorem course_outcome (outside : Outside X S) (htx : tx.entries = OrdMap.empty) (c : Command)
    (w : World S) :
    ∃ r u, runAlone outside (c.course tx) w = some (r, u) ∧ c.Outcome w r u := by
  rw [course, runAlone_bind, runAlone_admission, Option.bind_some]
  dsimp only
  cases hstale : c.stale w with
  | some err =>
    exact ⟨_, _, runAlone_giveBack outside tx.id err w, .failed ⟨rfl, rfl, rfl⟩⟩
  | none =>
    cases hrefusal : c.refusal with
    | some err =>
      exact ⟨_, _, runAlone_giveBack outside tx.id err w, .failed ⟨rfl, rfl, rfl⟩⟩
    | none => exact critical_outcome htx hstale hrefusal

end Command

namespace Engine

open World

variable {c : Command} {w w' : World S}

/-- An attempt is a course in a new transaction. -/
theorem attempt_outcome (outside : Outside X S) (settings : Settings) (levels : Nat) (c : Command)
    (w : World S) :
    ∃ r u, runAlone outside ((standard settings).attempt (levels + 2) c) w = some (r, u) ∧
      c.Outcome w r u := by
  have hbegin : w.SameCommitted { w with store := w.store.begin.2 } := ⟨rfl, rfl, rfl⟩
  have hempty : (Transaction.new w.store.nextTx : Transaction CertificateAuthority).entries =
      OrdMap.empty := rfl
  obtain ⟨r, u, hu, ho⟩ :=
    Command.course_outcome outside hempty c { w with store := w.store.begin.2 }
  refine ⟨r, u, ?_, .of_same hbegin ho⟩
  rw [attempt_eq]
  refine (runAlone_step_bind (q := .start) rfl _).trans ?_
  refine (congrArg (fun p => runAlone outside p _)
    (attempt_standard settings levels c (.new w.store.nextTx) rfl)).trans hu

/-- A step that changes nothing may come before what comes to an end. -/
theorem outcome_step {q : SharedQuery X} {reply : (sharedInterface X).Reply q} {u : World S}
    {f : (sharedInterface X).Reply q → Process X (Except CommandError CommandStatus)}
    (taken : step outside q w = some (reply, u)) (hsame : w.SameCommitted u)
    (hf : ∃ r v, runAlone outside (f reply) u = some (r, v) ∧ c.Outcome u r v) :
    ∃ r v, runAlone outside (Process.step q >>= f) w = some (r, v) ∧ c.Outcome w r v := by
  obtain ⟨r, v, hv, ho⟩ := hf
  exact ⟨r, v, (runAlone_step_bind taken f).trans hv, .of_same hsame ho⟩

/-- A command that is given up fails. -/
theorem givenUp_outcome (c : Command) (w : World S) :
    ∃ r u, runAlone outside (givenUp c >>= fun err => (pure (.error err) : Process X _)) w =
      some (r, u) ∧ c.Outcome w r u := by
  rw [givenUp, bind_assoc]
  refine outcome_step (q := .read c.authority.id) rfl (.refl w) ?_
  rw [bind_assoc]
  refine outcome_step (q := .recordsSince c.authority) rfl (.refl w) ?_
  exact ⟨_, w, rfl, .failed (.refl w)⟩

/-- **Any number of attempts** come to one of the three ends: they are repeated after a failure
only, and a failure changes nothing. -/
theorem attempts_outcome (outside : Outside X S) (settings : Settings) (levels : Nat) (c : Command)
    (more retry : Nat) (w : World S) :
    ∃ r u, runAlone outside ((standard settings).attempts (levels + 2) c more retry) w =
        some (r, u) ∧ c.Outcome w r u := by
  induction more using Nat.strongRecOn generalizing w retry with
  | ind more ih =>
    obtain ⟨r, u, hu, ho⟩ := attempt_outcome outside settings levels c w
    rw [attempts, runAlone_bind, hu, Option.bind_some]
    cases r with
    | ok status => exact ⟨_, u, rfl, ho⟩
    | error err =>
      -- of the three ends only failing is an error
      have hsame : w.SameCommitted u := by cases ho; assumption
      suffices h : ∃ r v, runAlone outside _ u = some (r, v) ∧ c.Outcome u r v by
        obtain ⟨r, v, hv, ho⟩ := h
        exact ⟨r, v, hv, .of_same hsame ho⟩
      dsimp only
      split
      · cases more with
        | zero =>
          refine outcome_step (q := .log _) rfl ?_ (givenUp_outcome c _)
          exact ⟨rfl, rfl, rfl⟩
        | succ more =>
          refine outcome_step (q := .draw _) rfl (.refl u) ?_
          refine outcome_step (q := .measure .retry) rfl ?_ ?_
          · exact ⟨rfl, rfl, rfl⟩
          · refine outcome_step (q := .log _) rfl ?_ (ih more (Nat.lt_succ_self more) _ _)
            exact ⟨rfl, rfl, rfl⟩
      · refine outcome_step (q := .log _) rfl ?_ ⟨_, _, rfl, .failed (.refl _)⟩
        exact ⟨rfl, rfl, rfl⟩

/-- **Every execution comes to one of the three ends.** -/
theorem execute_outcome (outside : Outside X S) (settings : Settings) (levels : Nat) (c : Command)
    (w : World S) :
    ∃ r u, World.execute outside (standard settings) (levels + 2) c w = some (r, u) ∧
      c.Outcome w r u := by
  obtain ⟨r, u, hu, ho⟩ := attempts_outcome outside settings levels c
    (max (standard (X := X) settings).settings.commands.maxAttempts 1 - 1) 0 w
  refine ⟨r, (u.measure (.duration c.type)).measure (.outcome (outcomeOf r)), ?_,
    ho.then_same ⟨rfl, rfl, rfl⟩⟩
  rw [World.execute, execute]
  refine (runAlone_bind _ _ w).trans ?_
  rw [hu, Option.bind_some]
  refine (runAlone_step_bind (q := .measure (.duration c.type)) rfl _).trans ?_
  exact runAlone_step_bind (q := .measure (.outcome (outcomeOf r))) rfl _

end Engine

end RpkiAuthority
