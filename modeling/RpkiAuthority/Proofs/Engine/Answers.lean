import RpkiAuthority.Proofs.Collection.Lookup
import RpkiAuthority.Engine.Running

/-!
# Answers, one by one

What an action does when it is run follows its structure: actions in sequence are run in sequence,
up to the first that fails (`Engine.act_bind_run`), and a single question is answered. Here each
answer is written out for a command that has looked at one authority so far, or at none: it either
changes the copy of that authority and the rest of the state, or takes one step on what is shared.
Running an action of this library is then a matter of rewriting.

A transaction reads an authority from the store at most once. `Process.lookUp` is that look-up: it
is a step where the authority was not seen yet, and nothing where it was.
-/

namespace RpkiAuthority

variable {X : Interface} {α β : Type}

/-- Looks at a committed authority, unless what there is was seen already. -/
def Process.lookUp (id : AggregateId) :
    Option (Option CertificateAuthority) → Process X (Option CertificateAuthority)
  | some found => pure found
  | none => Process.step (.read id)

/-! ### Copies of an authority -/

theorem Entry.working_ofFound (ca : CertificateAuthority) :
    (ofFound (some ca)).working = some ca := rfl

namespace RunState

/-- The state with another copy of an authority. -/
def withEntry (st : RunState X) (id : AggregateId) (entry : Entry CertificateAuthority) :
    RunState X :=
  { st with tx := st.tx.setEntry id entry }

/-- The state after an authority was seen, or before. -/
def seen (st : RunState X) (id : AggregateId) : Option (Option CertificateAuthority) → RunState X
  | some found => st.withEntry id (Entry.ofFound found)
  | none => st

variable (st : RunState X) (id : AggregateId) (entry entry' : Entry CertificateAuthority)

@[simp] theorem withEntry_scope : (st.withEntry id entry).scope = st.scope := rfl
@[simp] theorem withEntry_logContext : (st.withEntry id entry).logContext = st.logContext := rfl

@[simp] theorem find?_withEntry : (st.withEntry id entry).tx.entries.find? id = some entry :=
  OrdMap.find?_insert_self _ id entry

@[simp] theorem withEntry_withEntry :
    (st.withEntry id entry).withEntry id entry' = st.withEntry id entry' := by
  have h : (st.tx.entries.insert id entry).insert id entry' = st.tx.entries.insert id entry' := by
    refine OrdMap.ext_find? fun q => ?_
    by_cases hq : q = id
    · rw [hq, OrdMap.find?_insert_self, OrdMap.find?_insert_self]
    · rw [OrdMap.find?_insert_of_ne _ hq, OrdMap.find?_insert_of_ne _ hq,
        OrdMap.find?_insert_of_ne _ hq]
  simp only [withEntry, Transaction.setEntry, h]

/-- Noting an event does not touch the copies. -/
@[simp] theorem noteEvent_withEntry (event : AuthorityEvent) :
    (st.withEntry id entry).noteEvent event = (st.noteEvent event).withEntry id entry := by
  cases h : st.frames <;> simp [noteEvent, withEntry, h]

@[simp] theorem noteEvent_scope (event : AuthorityEvent) :
    (st.noteEvent event).scope = st.scope := by
  cases h : st.frames <;> simp [noteEvent, h]

@[simp] theorem noteEvent_logContext (event : AuthorityEvent) :
    (st.noteEvent event).logContext = st.logContext := by
  cases h : st.frames <;> simp [noteEvent, h]

@[simp] theorem seen_txId (found : Option (Option CertificateAuthority)) :
    (st.seen id found).tx.id = st.tx.id := by
  cases found <;> rfl

end RunState

/-! ### Questions about the copy -/

namespace Running

theorem lock_run (st : RunState X) (id : AggregateId) (mode : LockMode) :
    (Running.lock id mode).run st =
      Process.step (.acquire st.tx.id id mode) >>= fun r =>
        pure (r.mapError .storage, st) := by
  simp only [Running.lock, Running.step, StateT.run_bind, StateT.run_get, pure_bind]
  rw [StateT.run_lift, bind_assoc]
  refine bind_congr fun r => ?_
  cases r with
  | ok _ => rfl
  | error e => rfl

/-- An authority that was seen is not looked up again. -/
theorem copyOf_run (st : RunState X) (id : AggregateId) (entry : Entry CertificateAuthority) :
    (Running.copyOf id).run (st.withEntry id entry) = pure (entry, st.withEntry id entry) := by
  simp [Running.copyOf]

/-- The first look at an authority makes the copy. -/
theorem copyOf_run_seen {st : RunState X} {id : AggregateId}
    (h : st.tx.entries.find? id = none) (found : Option (Option CertificateAuthority)) :
    (Running.copyOf id).run (st.seen id found) =
      Process.lookUp id found >>= fun found =>
        pure (Entry.ofFound found, st.withEntry id (Entry.ofFound found)) := by
  cases found with
  | some found => exact copyOf_run st id _
  | none =>
    simp only [Running.copyOf, RunState.seen, Running.step, StateT.run_bind, StateT.run_get,
      pure_bind, h, Process.lookUp]
    rw [StateT.run_lift, bind_assoc]
    refine bind_congr fun found => ?_
    simp [RunState.withEntry]

theorem setCopy_run (st : RunState X) (id : AggregateId) (entry : Entry CertificateAuthority) :
    (Running.setCopy id entry).run st = pure (PUnit.unit, st.withEntry id entry) := rfl

/-- What the transaction answers about its copy of an authority, and what becomes of the copy. -/
def onEntry (id : AggregateId) (action : Entry CertificateAuthority → Entry CertificateAuthority)
    (st : RunState X) (entry : Entry CertificateAuthority) :
    Except CommandError CertificateAuthority × RunState X :=
  match entry.working with
  | some ca => (.ok ca, st.withEntry id (action entry))
  | none => (.error (.unknownAuthority id), st.withEntry id entry)

theorem onCopy_run (st : RunState X) (id : AggregateId) (entry : Entry CertificateAuthority)
    (action : Entry CertificateAuthority → Entry CertificateAuthority) :
    (Running.onCopy id action).run (st.withEntry id entry) =
      pure (onEntry id action st entry) := by
  rw [Running.onCopy, StateT.run_bind, copyOf_run, pure_bind, onEntry]
  cases entry.working with
  | none => rfl
  | some ca =>
    rw [StateT.run_bind, setCopy_run, pure_bind, RunState.withEntry_withEntry]
    rfl

/-- At the first look, what there is decides what the transaction answers about its copy. -/
theorem onCopy_run_seen {st : RunState X} {id : AggregateId} (h : st.tx.entries.find? id = none)
    (found : Option (Option CertificateAuthority))
    (action : Entry CertificateAuthority → Entry CertificateAuthority) :
    (Running.onCopy id action).run (st.seen id found) =
      Process.lookUp id found >>= fun found =>
        match found with
        | some ca => pure (.ok ca, st.withEntry id (action (Entry.ofFound (some ca))))
        | none => pure (.error (.unknownAuthority id), st.withEntry id (Entry.ofFound none)) := by
  rw [Running.onCopy, StateT.run_bind, copyOf_run_seen h, bind_assoc]
  refine bind_congr fun found => ?_
  rw [pure_bind]
  cases found with
  | none => rfl
  | some ca =>
    rw [Entry.working_ofFound, StateT.run_bind, setCopy_run, pure_bind,
      RunState.withEntry_withEntry]
    rfl

end Running

/-! ### Actions -/

namespace Engine

variable (e : Engine X) (inside : Nesting X)

/-- **Actions in sequence** are run in sequence, up to the first that fails. -/
theorem act_bind_run (a : Action X α) (f : α → Action X β) (st : RunState X) :
    (e.act inside (a >>= f)).run st =
      (e.act inside a).run st >>= fun p =>
        match p.1 with
        | .ok x => (e.act inside (f x)).run p.2
        | .error err => pure (.error err, p.2) := by
  have h : e.act inside (a >>= f) = e.act inside a >>= fun r =>
      match r with
      | .ok x => e.act inside (f x)
      | .error err => pure (.error err) := by
    refine (Dialogue.conduct_bind (e.answer inside) a.run _).trans (bind_congr fun r => ?_)
    cases r <;> rfl
  rw [h, StateT.run_bind]
  refine bind_congr fun p => ?_
  cases p.1 <;> rfl

@[simp] theorem act_except_run (r : Except CommandError α) (st : RunState X) :
    (e.act inside (ExceptT.mk (pure r))).run st = pure (r, st) := rfl

theorem act_lock (id : AggregateId) (mode : LockMode) :
    e.act inside (Action.lock id mode) = Running.lock id mode :=
  Dialogue.conduct_ask (I := actionInterface X) (e.answer inside) (.lock id mode)

theorem act_get (id : AggregateId) :
    e.act inside (Action.get id) = Running.onCopy id fun entry => entry :=
  Dialogue.conduct_ask (I := actionInterface X) (e.answer inside) (.get id)

theorem act_update (id : AggregateId) (change : CertificateAuthority → CertificateAuthority) :
    e.act inside (Action.update id change) =
      Running.onCopy id (Entry.update change) >>= fun r => pure (r.map fun _ => ()) :=
  Dialogue.conduct_ask (I := actionInterface X) (e.answer inside) (.update id change)

theorem act_remove (id : AggregateId) :
    e.act inside (Action.remove id) = Running.onCopy id Entry.remove :=
  Dialogue.conduct_ask (I := actionInterface X) (e.answer inside) (.remove id)

theorem act_publish (event : AuthorityEvent) :
    e.act inside (Action.publish event) =
      (modify fun st => st.noteEvent event) >>= fun _ => inside.deliver event :=
  Dialogue.conduct_ask (I := actionInterface X) (e.answer inside) (.publish event)

theorem act_versionedId (id : AggregateId) :
    e.act inside (Action.versionedId id) =
      Running.copyOf id >>= fun entry =>
        match entry.pendingVersion with
        | some version => pure (.ok ⟨id, version⟩)
        | none => pure (.error (.unknownAuthority id)) :=
  Dialogue.conduct_ask (I := actionInterface X) (e.answer inside) (.versionedId id)

theorem act_insert (ca : CertificateAuthority) :
    e.act inside (Action.insert ca) =
      Running.copyOf ca.id >>= fun entry =>
        if entry.working.isSome then pure (.error (.authorityExists ca.id))
        else Running.setCopy ca.id (entry.insert ca) >>= fun _ => pure (.ok ()) :=
  Dialogue.conduct_ask (I := actionInterface X) (e.answer inside) (.insert ca)

/-- A question that is always answered does not fail. -/
theorem act_ask (q : ActionQuery X) :
    e.act inside (Action.ask q) = e.answer inside q >>= fun r => pure (Except.ok r) := by
  refine (Dialogue.conduct_bind (I := actionInterface X) (e.answer inside) _ _).trans ?_
  exact congrArg (fun m : Running X _ => m >>= fun r => (pure (Except.ok r) : Running X _))
    (Dialogue.conduct_ask (I := actionInterface X) (e.answer inside) q)

theorem act_record (event : AuthorityEvent) :
    e.act inside (Action.record event) =
      (modify fun st => st.noteEvent event : Running X Unit) >>= fun _ => pure (.ok ()) :=
  act_ask e inside (.record event)

theorem act_deleteRecords (id : AggregateId) :
    e.act inside (Action.deleteRecords id) =
      (modify fun st => { st with deletions := st.deletions ++ [id] } : Running X Unit) >>=
        fun _ => pure (.ok ()) :=
  act_ask e inside (.deleteRecords id)

theorem act_log (level : LogLevel) (message : String) :
    e.act inside (Action.log level message) =
      ((get : Running X (RunState X)) >>= fun st =>
        (Running.step (.log ⟨level, st.logContext, message⟩) : Running X Unit)) >>=
          fun _ => pure (.ok ()) :=
  act_ask e inside (.log level message)

theorem act_freshUuid :
    e.act inside (Action.ask .freshUuid) =
      (Running.step .freshUuid : Running X Uuid) >>= fun uuid => pure (.ok uuid) :=
  act_ask e inside .freshUuid

theorem act_lock_run (id : AggregateId) (mode : LockMode) (st : RunState X) :
    (e.act inside (Action.lock id mode)).run st =
      Process.step (.acquire st.tx.id id mode) >>= fun r => pure (r.mapError .storage, st) := by
  rw [act_lock, Running.lock_run]

theorem act_get_run (st : RunState X) {id : AggregateId} {entry : Entry CertificateAuthority}
    {ca : CertificateAuthority} (h : entry.working = some ca) :
    (e.act inside (Action.get id)).run (st.withEntry id entry) =
      pure (.ok ca, st.withEntry id entry) := by
  rw [act_get, Running.onCopy_run, Running.onEntry, h]

theorem act_update_run (st : RunState X) {id : AggregateId} {entry : Entry CertificateAuthority}
    {ca : CertificateAuthority} (h : entry.working = some ca)
    (change : CertificateAuthority → CertificateAuthority) :
    (e.act inside (Action.update id change)).run (st.withEntry id entry) =
      pure (.ok (), st.withEntry id (entry.update change)) := by
  rw [act_update, StateT.run_bind, Running.onCopy_run, Running.onEntry, h]
  rfl

theorem act_versionedId_run (st : RunState X) {id : AggregateId}
    {entry : Entry CertificateAuthority} {version : Nat} (h : entry.pendingVersion = some version) :
    (e.act inside (Action.versionedId id)).run (st.withEntry id entry) =
      pure (.ok ⟨id, version⟩, st.withEntry id entry) := by
  rw [act_versionedId, StateT.run_bind, Running.copyOf_run, pure_bind, h]
  rfl

theorem act_record_run (event : AuthorityEvent) (st : RunState X) :
    (e.act inside (Action.record event)).run st = pure (.ok (), st.noteEvent event) := by
  rw [act_record]
  rfl

theorem act_deleteRecords_run (id : AggregateId) (st : RunState X) :
    (e.act inside (Action.deleteRecords id)).run st =
      pure (.ok (), { st with deletions := st.deletions ++ [id] }) := by
  rw [act_deleteRecords]
  rfl

theorem act_log_run (level : LogLevel) (message : String) (st : RunState X) :
    (e.act inside (Action.log level message)).run st =
      Process.step (.log ⟨level, st.logContext, message⟩) >>= fun _ => pure (.ok (), st) := by
  rw [act_log]
  rfl

theorem act_freshUuid_run (st : RunState X) :
    (e.act inside (Action.ask .freshUuid)).run st =
      Process.step .freshUuid >>= fun uuid => pure (.ok uuid, st) := by
  rw [act_freshUuid]
  rfl

/-! ### First looks -/

section Seen

variable {st : RunState X} {id : AggregateId} (h : st.tx.entries.find? id = none)
  (found : Option (Option CertificateAuthority))

include h

theorem act_update_run_seen (change : CertificateAuthority → CertificateAuthority) :
    (e.act inside (Action.update id change)).run (st.seen id found) =
      Process.lookUp id found >>= fun found =>
        match found with
        | some ca => pure (.ok (), st.withEntry id ((Entry.ofFound (some ca)).update change))
        | none => pure (.error (.unknownAuthority id), st.withEntry id (Entry.ofFound none)) := by
  rw [act_update, StateT.run_bind, Running.onCopy_run_seen h, bind_assoc]
  refine bind_congr fun found => ?_
  cases found <;> rfl

theorem act_insert_run_seen {ca : CertificateAuthority} (hid : ca.id = id) :
    (e.act inside (Action.insert ca)).run (st.seen id found) =
      Process.lookUp id found >>= fun found =>
        match found with
        | some _ => pure (.error (.authorityExists id), st.withEntry id (Entry.ofFound found))
        | none => pure (.ok (), st.withEntry id ((Entry.ofFound none).insert ca)) := by
  subst hid
  rw [act_insert, StateT.run_bind, Running.copyOf_run_seen h, bind_assoc]
  refine bind_congr fun found => ?_
  rw [pure_bind]
  cases found with
  | some found => rfl
  | none =>
    have hworking : (Entry.ofFound (none : Option CertificateAuthority)).working.isSome ≠ true :=
      Bool.false_ne_true
    rw [if_neg hworking, StateT.run_bind, Running.setCopy_run, pure_bind,
      RunState.withEntry_withEntry]
    rfl

end Seen

end Engine

end RpkiAuthority
