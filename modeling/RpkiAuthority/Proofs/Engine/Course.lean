import RpkiAuthority.Engine.Execution
import RpkiAuthority.Proofs.Engine.Alone
import RpkiAuthority.Proofs.Engine.Effect

/-!
# The course of an attempt

With the handlers and listeners of this library, an attempt to execute a command is a short
process that can be read from top to bottom (`Command.course`): find out whether the command is
based on the right version, refuse what can be refused at once, take the lock, look at the
authority, work out the effect, commit and release. No trace is left in it of how commands and
listeners are run inside of one another.

`Engine.attempt_standard` says that attempts are these processes. Two levels of nesting are
enough: one for the command, and one for the listeners that follow its events.
-/

namespace RpkiAuthority

variable {X : Interface}

namespace Process

/-- Ends a transaction without a commit. -/
def giveBack (tx : TxId) (err : CommandError) : Process X (Except CommandError CommandStatus) :=
  step (.release tx) >>= fun _ => pure (.error err)

/-- Ends a transaction with a commit. -/
def conclude (tx : Transaction CertificateAuthority) (deletions : List AggregateId)
    (records : List PendingRecord) (status : CommandStatus) :
    Process X (Except CommandError CommandStatus) :=
  step (.commit tx deletions records) >>= fun committed =>
    step (.release tx.id) >>= fun _ =>
      match committed with
      | .ok () => pure (.ok status)
      | .error err => pure (.error (.storage err))

end Process

/-- The transaction's copy of an authority after a change. -/
def Change.entry (found : Option CertificateAuthority) (change : Change) :
    Entry CertificateAuthority :=
  ⟨found.map CertificateAuthority.version, change.authority, true, false⟩

namespace Command

/-- The error of a command that is based on an old version, given the later records. -/
def conflict (c : Command) (ca : CertificateAuthority) (records : List CommandRecord) :
    Option CommandError :=
  let conflicting := records.filter fun r => r.group == .user
  if conflicting.isEmpty then none
  else some (.concurrentModification c.authority.id ca.version c.authority.version conflicting)

/-- Finds out what is wrong with the version that a command is based on. -/
def staleness (c : Command) : Option CertificateAuthority → Process X (Option CommandError)
  | none => pure none
  | some ca =>
    if ca.version ≤ c.authority.version then pure none
    else Process.step (.recordsSince c.authority) >>= fun records => pure (c.conflict ca records)

/-- What happens before the handler runs: what is wrong with the version, and what was seen of the
authority. Commands of the system are not checked. -/
def admission (c : Command) :
    Process X (Option CommandError × Option (Option CertificateAuthority)) :=
  if c.group = .system then pure (none, none)
  else
    Process.step (.read c.authority.id) >>= fun found =>
      c.staleness found >>= fun wrong => pure (wrong, some found)

/-- The version that a command ends at, given the transaction's copy. -/
def finalVersion (c : Command) (entry : Entry CertificateAuthority) : Process X Nat :=
  match entry.pendingVersion with
  | some version => pure version
  | none =>
    Process.step (.read c.authority.id) >>= fun found =>
      match found with
      | some ca => pure ca.version
      | none => pure c.authority.version

/-- The records of a command that had an effect. -/
def recorded (c : Command) (version : Nat) (events : List AuthorityEvent) : List PendingRecord :=
  if c.group = .user ∨ !events.isEmpty then [⟨c, version, events.map AuthorityEvent.text⟩] else []

/-- What happens once the effect is known. -/
def settle (c : Command) (tx : Transaction CertificateAuthority)
    (found : Option CertificateAuthority) :
    Except CommandError Change → Process X (Except CommandError CommandStatus)
  | .error .noEffect =>
    c.finalVersion (Entry.ofFound found) >>= fun version =>
      Process.conclude (tx.setEntry c.authority.id (Entry.ofFound found)) [] []
        ⟨false, ⟨c.authority.id, version⟩⟩
  | .error err => Process.giveBack tx.id err
  | .ok change =>
    c.finalVersion (change.entry found) >>= fun version =>
      Process.conclude (tx.setEntry c.authority.id (change.entry found))
        (if change.authority.isNone then [c.authority.id] else [])
        (c.recorded version change.events) ⟨true, ⟨c.authority.id, version⟩⟩

/-- What happens under the lock, and the taking of it. -/
def critical (c : Command) (tx : Transaction CertificateAuthority)
    (seen : Option (Option CertificateAuthority)) :
    Process X (Except CommandError CommandStatus) :=
  Process.step (.acquire tx.id c.authority.id .exclusive) >>= fun r =>
    match r with
    | .error err => Process.giveBack tx.id (.storage err)
    | .ok () =>
      c.drawUuid >>= fun uuid =>
        Process.lookUp c.authority.id seen >>= fun found =>
          Process.say (Engine.contextOf c) (c.effect uuid found).lines >>= fun _ =>
            c.settle tx found (c.effect uuid found).outcome

/-- **The course of an attempt** in a transaction that has begun. -/
def course (c : Command) (tx : Transaction CertificateAuthority) :
    Process X (Except CommandError CommandStatus) :=
  c.admission >>= fun p =>
    match p.1.or c.refusal with
    | some err => Process.giveBack tx.id err
    | none => c.critical tx p.2

end Command

namespace Engine

/-! ### The scope of a command -/

/-- The audience of a command that the maintaining listeners are subscribed for. -/
def standardScope : Propagation (Listener X) :=
  ⟨[⟨0, [(0, Maintenance.roaAlerts), (1, Maintenance.aspa)]⟩], [0], 1, 2⟩

/-- The state in which the handler of a command runs that is not inside of another. -/
def inner (tx : Transaction CertificateAuthority) (context : LogContext) : RunState X :=
  ⟨tx, standardScope, [[]], [], [], context⟩

/-- The state after such a command, given the one after its handler. -/
def closed (st : RunState X) : RunState X :=
  { st with
    frames := st.frames.drop 1
    scope := (([0, 1] : List Nat).foldl Propagation.cancel st.scope).leave 0 }

/-- No subscription is left over. -/
theorem closed_reset {st : RunState X} (h : st.scope = standardScope) :
    (closed st).scope.reset.1 = [] := by
  rw [closed, h]
  rfl

/-! ### Running the command -/

/-- A step does not touch the state. -/
theorem step_bind_run {α : Type} (q : SharedQuery X)
    (f : (sharedInterface X).Reply q → Running X α) (st : RunState X) :
    (Running.step q >>= f).run st = Process.step q >>= fun r => (f r).run st := by
  rw [Running.step, StateT.run_bind, StateT.run_lift, bind_assoc]
  rfl

variable {settings : Settings} {c : Command} {tx : Transaction CertificateAuthority}
  {context : LogContext}

/-- What is answered about the version of a command, given what is wrong with it. -/
def checked : Option CommandError → Except CommandError Unit
  | some err => .error err
  | none => .ok ()

/-- The check of the version, given the authority found. -/
def checkFound (c : Command) : Option CertificateAuthority → Running X (Except CommandError Unit)
  | none => pure (.ok ())
  | some ca =>
    if ca.version ≤ c.authority.version then pure (.ok ())
    else (Running.step (.recordsSince c.authority) : Running X (List CommandRecord)) >>=
      fun records => pure (checked (c.conflict ca records))

theorem checkVersion_eq (c : Command) :
    checkVersion (X := X) c =
      if c.group = .system then pure (.ok ())
      else Running.copyOf c.authority.id >>= fun entry => checkFound c entry.working := by
  rw [checkVersion]
  split
  · rfl
  · refine bind_congr fun entry => ?_
    cases entry.working with
    | none => rfl
    | some ca =>
      rw [checkFound]
      dsimp only
      split
      · rfl
      · refine bind_congr fun records => ?_
        unfold Command.conflict
        dsimp only
        split <;> rfl

theorem checkFound_run (found : Option CertificateAuthority) (st : RunState X) :
    (checkFound c found).run st =
      c.staleness found >>= fun wrong => pure (checked wrong, st) := by
  cases found with
  | none => rfl
  | some ca =>
    rw [checkFound, Command.staleness]
    split
    · rfl
    · refine (step_bind_run (.recordsSince c.authority) _ st).trans ?_
      rw [bind_assoc]
      rfl

theorem checkVersion_run (h : tx.entries.find? c.authority.id = none) :
    (checkVersion (X := X) c).run (RunState.new tx context) =
      c.admission >>= fun p =>
        pure (checked p.1, (RunState.new tx context).seen c.authority.id p.2) := by
  rw [checkVersion_eq, Command.admission]
  by_cases hgroup : c.group = .system
  · rw [if_pos hgroup, if_pos hgroup]
    rfl
  · rw [if_neg hgroup, if_neg hgroup, StateT.run_bind]
    -- nothing was looked at before, so the copy is looked up
    refine (congrArg (fun m => m >>= _)
      (Running.copyOf_run_seen
        (show (RunState.new (X := X) tx context).tx.entries.find? c.authority.id = none from h)
        none)).trans ?_
    rw [bind_assoc, bind_assoc]
    refine bind_congr fun found => ?_
    rw [pure_bind, bind_assoc]
    exact checkFound_run found _

/-- What the handler of a command does that is not inside of another. -/
def handled (c : Command) (tx : Transaction CertificateAuthority) (context : LogContext)
    (seen : Option (Option CertificateAuthority)) :
    Process X (Except CommandError Unit × RunState X) :=
  match c.refusal with
  | some err => pure (.error err, (inner tx context).seen c.authority.id seen)
  | none => locked (inner tx context) c seen

theorem handle_standard_run (levels : Nat) (seen : Option (Option CertificateAuthority))
    (h : tx.entries.find? c.authority.id = none) :
    ((standard (X := X) settings).handle ((standard settings).nesting (levels + 1)) c).run
        ((RunState.new tx context).seen c.authority.id seen) =
      handled c tx context seen >>= fun p =>
        pure ((p.1, p.2.frames.headD []), closed p.2) := by
  have hact : ((standard (X := X) settings).act ((standard settings).nesting (levels + 1))
      (Handlers.standard c.type c)).run ((inner tx context).seen c.authority.id seen) =
        handled c tx context seen :=
    act_standard_run (standard settings)
      (show (inner (X := X) tx context).tx.entries.find? c.authority.id = none from h) seen rfl rfl
  rw [← hact, handle, StateT.run_bind, StateT.run_get, pure_bind]
  -- the scope that the maintaining listeners subscribe in is computed
  cases seen <;> rfl

theorem versionAfter_run {st : RunState X} {entry : Entry CertificateAuthority}
    (h : st.tx.entries.find? c.authority.id = some entry) :
    (versionAfter c).run st = c.finalVersion entry >>= fun version => pure (version, st) := by
  have hcopy : (Running.copyOf c.authority.id).run st = pure (entry, st) := by
    simp [Running.copyOf, h]
  rw [versionAfter, StateT.run_bind, hcopy, pure_bind, Command.finalVersion]
  dsimp only
  cases entry.pendingVersion with
  | some version => rfl
  | none =>
    refine (step_bind_run (.read c.authority.id) _ st).trans ?_
    rw [bind_assoc]
    refine bind_congr fun found => ?_
    cases found <;> rfl

/-- What is left of an attempt when the command has run. -/
def finish (st : RunState X) (result : Except CommandError CommandStatus) :
    Process X (Except CommandError CommandStatus) :=
  logDropped st.logContext st.scope.reset.1 >>= fun _ =>
    match result with
    | .error err => Process.giveBack st.tx.id err
    | .ok status => Process.conclude st.tx st.deletions st.records status

theorem attempt_eq (e : Engine X) (levels : Nat) (c : Command) :
    e.attempt levels c =
      (Process.step .start : Process X (Transaction CertificateAuthority)) >>= fun tx =>
        ((e.nesting levels).run c).run (RunState.new tx (contextOf c)) >>= fun p =>
          finish p.2 p.1 := by
  rw [attempt]
  refine bind_congr fun tx => bind_congr fun p => bind_congr fun _ => ?_
  obtain ⟨result, st⟩ := p
  cases result with
  | error err => rfl
  | ok status =>
    refine bind_congr fun committed => bind_congr fun _ => ?_
    cases committed <;> rfl

/-! ### From the handler to the end -/

/-- What a command does from the end of its handler to the end of the attempt. -/
def ending (c : Command) (p : Except CommandError Unit × RunState X) :
    Process X (Except CommandError CommandStatus) :=
  (wrapUp c p.1 (p.2.frames.headD [])).run (closed p.2) >>= fun q => finish q.2 q.1

theorem finish_of_reset {st : RunState X} (h : st.scope.reset.1 = [])
    (result : Except CommandError CommandStatus) :
    finish st result =
      match result with
      | .error err => Process.giveBack st.tx.id err
      | .ok status => Process.conclude st.tx st.deletions st.records status := by
  unfold finish
  rw [h]
  rfl

/-- An error proper ends an attempt without a commit. -/
theorem ending_error {st : RunState X} (hst : st.scope = standardScope) {err : CommandError}
    (herr : err ≠ .noEffect) : ending c (.error err, st) = Process.giveBack st.tx.id err := by
  dsimp only [ending]
  rw [wrapUp_error c herr, StateT.run_pure, pure_bind, finish_of_reset (closed_reset hst)]
  rfl

/-- Nothing to do is no error, and there is nothing to write. -/
theorem ending_noEffect (found : Option CertificateAuthority) :
    ending (X := X) c
        (.error .noEffect, (inner tx context).withEntry c.authority.id (Entry.ofFound found)) =
      c.settle tx found (.error .noEffect) := by
  have hentry : (closed ((inner (X := X) tx context).withEntry c.authority.id
      (Entry.ofFound found))).tx.entries.find? c.authority.id = some (Entry.ofFound found) :=
    RunState.find?_withEntry _ _ _
  dsimp only [ending, wrapUp]
  rw [StateT.run_bind, versionAfter_run hentry, bind_assoc, bind_assoc]
  refine bind_congr fun version => ?_
  rw [pure_bind, StateT.run_pure, pure_bind, finish_of_reset (closed_reset rfl)]
  rfl

/-- Events are added to the innermost list. -/
theorem noteEvents_eq {st : RunState X} {frame : List String} {outer : List (List String)}
    (h : st.frames = frame :: outer) (events : List AuthorityEvent) :
    st.noteEvents events =
      { st with frames := (frame ++ events.map AuthorityEvent.text) :: outer } := by
  induction events generalizing st frame with
  | nil =>
    rw [RunState.noteEvents_nil, List.map_nil, List.append_nil, ← h]
  | cons event rest ih =>
    have hnote : st.noteEvent event = { st with frames := (frame ++ [event.text]) :: outer } := by
      rw [RunState.noteEvent, h]
    have hframes : (st.noteEvent event).frames = (frame ++ [event.text]) :: outer := by rw [hnote]
    rw [RunState.noteEvents_cons, ih hframes, hnote, List.map_cons, List.append_assoc]
    rfl

/-- The state after a change that a command made by itself. -/
theorem inner_changed (found : Option CertificateAuthority) (change : Change) :
    (inner (X := X) tx context).changed c.authority.id found change =
      ⟨tx.setEntry c.authority.id (change.entry found), standardScope,
        [change.events.map AuthorityEvent.text], [],
        if change.authority.isNone then [c.authority.id] else [], context⟩ := by
  rw [RunState.changed, noteEvents_eq (show (inner (X := X) tx context).frames = [] :: [] from rfl)]
  rfl

/-- A change is written, with a record if there is to be one. -/
theorem ending_ok (found : Option CertificateAuthority) (change : Change) :
    ending (X := X) c (.ok (), (inner tx context).changed c.authority.id found change) =
      c.settle tx found (.ok change) := by
  rw [inner_changed]
  dsimp only [ending, wrapUp]
  rw [StateT.run_bind, versionAfter_run (OrdMap.find?_insert_self _ _ _), bind_assoc, bind_assoc]
  refine bind_congr fun version => ?_
  rw [pure_bind, StateT.run_bind, bind_assoc]
  -- a record is kept if there are texts of events, which is if there are events
  have hempty : ([change.events.map AuthorityEvent.text].headD []).isEmpty =
      change.events.isEmpty := by
    cases change.events <;> rfl
  split
  · next h =>
    rw [hempty] at h
    rw [StateT.run_modify, pure_bind, StateT.run_pure, pure_bind, finish_of_reset (by rfl),
      Command.recorded, if_pos h]
    rfl
  · next h =>
    rw [hempty] at h
    rw [StateT.run_pure, pure_bind, StateT.run_pure, pure_bind, finish_of_reset (by rfl),
      Command.recorded, if_neg h]
    rfl

/-- Once the effect is known, all that is left is to settle it. -/
theorem takePlace_ending (effect : Effect) (found : Option CertificateAuthority) :
    (effect.takePlace (inner tx context) c.authority.id found >>= ending c : Process X _) =
      Process.say context effect.lines >>= fun _ => c.settle tx found effect.outcome := by
  rw [Effect.takePlace, bind_assoc]
  refine bind_congr fun _ => ?_
  cases effect.outcome with
  | error err =>
    rw [pure_bind]
    -- the handler says by an error that there was nothing to do
    by_cases herr : err = .noEffect
    · subst herr
      exact ending_noEffect found
    · rw [ending_error rfl herr]
      cases err <;> first | rfl | exact absurd rfl herr
  | ok change =>
    rw [pure_bind]
    exact ending_ok found change

theorem locked_ending (seen : Option (Option CertificateAuthority)) :
    (locked (inner tx (contextOf c)) c seen >>= ending c : Process X _) = c.critical tx seen := by
  rw [locked, Command.critical, bind_assoc]
  refine bind_congr fun r => ?_
  cases r with
  | error err =>
    dsimp only
    rw [pure_bind, ending_error (by cases seen <;> rfl) (by simp), RunState.seen_txId]
    rfl
  | ok _ =>
    dsimp only
    rw [bind_assoc]
    refine bind_congr fun uuid => ?_
    rw [bind_assoc]
    exact bind_congr fun found => takePlace_ending _ found

end Engine

/-- Commands are not refused for having no effect. -/
theorem Command.refusal_ne_noEffect {c : Command} {err : CommandError}
    (h : c.refusal = some err) : err ≠ .noEffect := by
  rw [refusal] at h
  rintro rfl
  split at h
  · split at h
    · simp at h
    · split at h <;> simp at h
  · exact absurd h (by simp)

namespace Engine

theorem handled_ending (seen : Option (Option CertificateAuthority)) :
    (handled c tx (contextOf c) seen >>= ending c : Process X _) =
      match c.refusal with
      | some err => Process.giveBack tx.id err
      | none => c.critical tx seen := by
  rw [handled]
  cases h : c.refusal with
  | none => exact locked_ending seen
  | some err =>
    dsimp only
    rw [pure_bind, ending_error (by cases seen <;> rfl) (Command.refusal_ne_noEffect h),
      RunState.seen_txId]
    rfl

/-- **Attempts to execute a command are courses**, with the handlers and listeners of this
library. -/
theorem attempt_standard (settings : Settings) (levels : Nat) (c : Command)
    (tx : Transaction CertificateAuthority) (h : tx.entries.find? c.authority.id = none) :
    ((((standard (X := X) settings).nesting (levels + 2)).run c).run
        (RunState.new tx (contextOf c)) >>= fun p => finish p.2 p.1) = c.course tx := by
  show (((standard settings).run ((standard settings).nesting (levels + 1)) c).run _ >>= _) = _
  rw [run_eq, StateT.run_bind, checkVersion_run h, bind_assoc, bind_assoc, Command.course]
  refine bind_congr fun p => ?_
  obtain ⟨wrong, seen⟩ := p
  rw [pure_bind]
  cases wrong with
  | some err =>
    dsimp only [checked, Option.some_or]
    rw [StateT.run_pure, pure_bind, finish_of_reset (by cases seen <;> rfl)]
    dsimp only
    rw [RunState.seen_txId]
    rfl
  | none =>
    dsimp only [checked, Option.none_or]
    rw [StateT.run_bind, handle_standard_run levels seen h, bind_assoc, bind_assoc]
    -- the two sides differ in nothing but how the sequence is put in brackets
    refine Eq.trans (bind_congr fun q => ?_) (handled_ending seen)
    rw [pure_bind]
    rfl

end Engine

end RpkiAuthority
