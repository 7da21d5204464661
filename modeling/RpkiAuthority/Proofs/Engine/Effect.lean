import RpkiAuthority.Proofs.Engine.Maintained

/-!
# The effect of a command on its authority

Once a handler of this library holds the lock, everything it does is decided by the authority it
finds: whether there is anything to do, which error there is otherwise, what becomes of the
authority and which events are noted. `Command.effect` says this as a function of the authority
found, with the work of the maintaining listeners already in it.

Running the handler is then the same short program for all eight types of commands
(`Engine.act_standard_run`): refuse what can be refused without looking, take the lock, look at the
authority unless it was seen already, and let the effect take place.
-/

namespace RpkiAuthority

/-- What becomes of an authority, and the events about it. -/
structure Change where
  /-- The authority afterwards; missing if it was deleted. -/
  authority : Option CertificateAuthority
  events : List AuthorityEvent

/-- What a command does to the authority it finds. -/
structure Effect where
  /-- What is noted in the log. -/
  lines : List (LogLevel × String)
  outcome : Except CommandError Change

namespace Effect

/-- Nothing but an error. -/
def fails (err : CommandError) : Effect := ⟨[], .error err⟩

/-- A change without events. -/
def changes (ca : CertificateAuthority) : Effect := ⟨[], .ok ⟨some ca, []⟩⟩

/-- A change of the certificates, after which the rest is maintained. -/
def certificates (id : AggregateId) (found changed : CertificateAuthority)
    (event : VersionedId → AuthorityEvent) : Effect where
  lines := changed.lapseLines
  outcome := .ok
    ⟨some changed.maintained,
      event ⟨id, found.version + 1⟩ :: changed.lapseEvents ⟨id, found.version + 1⟩⟩

end Effect

namespace Command

/-- The error of a command that is refused without looking at the authority. -/
def refusal (c : Command) : Option CommandError :=
  match c.details with
  | .subscribeToRoaAlert email states _ =>
    if (Text.trimmed email.toList).isEmpty then some (.invalidCommand "email is required")
    else if states.isEmpty then some (.invalidCommand "route validity states are required")
    else none
  | _ => none

/-- **The effect of a command** on the authority found. The number is used where one is created. -/
def effect (c : Command) (uuid : Uuid) : Option CertificateAuthority → Effect
  | none =>
    match c.details with
    | .createCertificateAuthority name =>
      ⟨[(.info, "Created CA '" ++ name ++ "' with id " ++ c.authority.id.repr)],
        .ok ⟨some (CertificateAuthority.create c.authority.id name uuid), []⟩⟩
    | _ => .fails (.unknownAuthority c.authority.id)
  | some ca =>
    match c.details with
    | .createCertificateAuthority _ => .fails (.authorityExists c.authority.id)
    | .updateIncomingCertificate key resources =>
      if ca.incoming.find? key = some resources then .fails .noEffect
      else .certificates c.authority.id ca (ca.setIncoming key resources)
        fun authority => .incomingCertificateUpdated authority key resources
    | .revokeIncomingCertificate key =>
      if ca.incoming.find? key = none then .fails .noEffect
      else .certificates c.authority.id ca (ca.removeIncoming key)
        fun authority => .incomingCertificateRevoked authority key
    | .subscribeToRoaAlert email states frequency =>
      .changes (ca.setAlerts (ca.alerts.subscribe email states frequency))
    | .unsubscribeFromRoaAlert email notify =>
      if ca.alerts.subscription.isNone then .fails .noEffect
      else
        ⟨if !ca.alerts.isSubscribed email then
            [(.info,
              "Trying to unsubscribe the address " ++ email ++ " that is not subscribed")]
          else [],
          .ok ⟨some (ca.setAlerts (Handlers.unsubscribed email notify ca.alerts)), []⟩⟩
    | .updateRoaAlertIgnoredAnnouncedRoutes additions deletions =>
      if ca.alerts.update additions deletions = ca.alerts then .fails .noEffect
      else .changes (ca.setAlerts (ca.alerts.update additions deletions))
    | .updateAspaConfiguration ifMatch entries _ =>
      match Handlers.newConfiguration ca ifMatch entries with
      | .error err => .fails err
      | .ok updated => .changes (ca.setAspa updated).markUpdated
    | .deleteCertificateAuthority =>
      ⟨[(.warn,
          "Deleting CA '" ++ ca.name ++ "' (id = " ++ c.authority.id.repr ++ ", uuid = " ++
            ca.uuid.text ++ ")")],
        .ok ⟨none, []⟩⟩

/-- Where there is no authority, all that can be done is to create it. -/
theorem effect_none_eq_ok {c : Command} {uuid : Uuid} {change : Change}
    (h : (c.effect uuid none).outcome = .ok change) :
    ∃ name, c.details = .createCertificateAuthority name ∧
      change = ⟨some (CertificateAuthority.create c.authority.id name uuid), []⟩ := by
  rw [effect] at h
  split at h
  · next name hd => exact ⟨name, hd, (Except.ok.inj h).symm⟩
  · exact absurd h (by simp [Effect.fails])

/-- **The changes of an authority**, one for each type of command that is about an existing one. -/
inductive Changes (c : Command) (ca : CertificateAuthority) : Change → Prop
  | issued {key : String} {resources : ResourceSet}
      (details : c.details = .updateIncomingCertificate key resources)
      (differs : ca.incoming.find? key ≠ some resources) :
      Changes c ca ⟨some (ca.setIncoming key resources).maintained,
        .incomingCertificateUpdated ⟨c.authority.id, ca.version + 1⟩ key resources ::
          (ca.setIncoming key resources).lapseEvents ⟨c.authority.id, ca.version + 1⟩⟩
  | revoked {key : String} (details : c.details = .revokeIncomingCertificate key)
      (found : ca.incoming.find? key ≠ none) :
      Changes c ca ⟨some (ca.removeIncoming key).maintained,
        .incomingCertificateRevoked ⟨c.authority.id, ca.version + 1⟩ key ::
          (ca.removeIncoming key).lapseEvents ⟨c.authority.id, ca.version + 1⟩⟩
  | subscribed {email : String} {states : OrdSet RouteValidity} {frequency : AlertFrequency}
      (details : c.details = .subscribeToRoaAlert email states frequency) :
      Changes c ca ⟨some (ca.setAlerts (ca.alerts.subscribe email states frequency)), []⟩
  | unsubscribed {email : String} {notify : Bool}
      (details : c.details = .unsubscribeFromRoaAlert email notify)
      (found : ca.alerts.subscription ≠ none) :
      Changes c ca ⟨some (ca.setAlerts (Handlers.unsubscribed email notify ca.alerts)), []⟩
  | ignored {additions deletions : List AnnouncedRoute}
      (details : c.details = .updateRoaAlertIgnoredAnnouncedRoutes additions deletions)
      (differs : ca.alerts.update additions deletions ≠ ca.alerts) :
      Changes c ca ⟨some (ca.setAlerts (ca.alerts.update additions deletions)), []⟩
  | configured {ifMatch : Option String} {entries : List AspaEntry}
      {changes : OrdMap Asn AspaChange} {updated : AspaConfiguration}
      (details : c.details = .updateAspaConfiguration ifMatch entries changes)
      (allowed : Handlers.newConfiguration ca ifMatch entries = .ok updated) :
      Changes c ca ⟨some (ca.setAspa updated).markUpdated, []⟩
  | deleted (details : c.details = .deleteCertificateAuthority) : Changes c ca ⟨none, []⟩

/-- **What a command does to an authority that is there** is one of these changes. -/
theorem effect_some_eq_ok {c : Command} {uuid : Uuid} {ca : CertificateAuthority} {change : Change}
    (h : (c.effect uuid (some ca)).outcome = .ok change) : c.Changes ca change := by
  rw [effect] at h
  split at h
  · exact absurd h (by simp [Effect.fails])
  · next hd =>
    split at h
    · exact absurd h (by simp [Effect.fails])
    · next hdiffers => exact Except.ok.inj h ▸ .issued hd hdiffers
  · next hd =>
    split at h
    · exact absurd h (by simp [Effect.fails])
    · next hfound => exact Except.ok.inj h ▸ .revoked hd hfound
  · next hd => exact Except.ok.inj h ▸ .subscribed hd
  · next hd =>
    split at h
    · exact absurd h (by simp [Effect.fails])
    · next hfound => exact Except.ok.inj h ▸ .unsubscribed hd (by simpa using hfound)
  · next hd =>
    split at h
    · exact absurd h (by simp [Effect.fails])
    · next hdiffers => exact Except.ok.inj h ▸ .ignored hd hdiffers
  · next hd =>
    split at h
    · exact absurd h (by simp [Effect.fails])
    · next hallowed => exact Except.ok.inj h ▸ .configured hd hallowed
  · next hd => exact Except.ok.inj h ▸ .deleted hd

/-- An authority that is there is not created again. -/
theorem Changes.type_ne_create {c : Command} {ca : CertificateAuthority} {change : Change}
    (h : c.Changes ca change) : c.type ≠ .createCertificateAuthority := by
  rw [type]
  cases h with
  | issued hd | revoked hd | subscribed hd | unsubscribed hd | ignored hd | configured hd
  | deleted hd =>
    rw [hd]
    exact nofun

/-- Users change an authority with or without events, the system with events only. -/
theorem Changes.recorded {c : Command} {ca : CertificateAuthority} {change : Change}
    (h : c.Changes ca change) : c.group = .user ∨ change.events.isEmpty = false := by
  rw [group, type]
  cases h with
  | issued | revoked => exact Or.inr rfl
  | subscribed hd | unsubscribed hd | ignored hd | configured hd | deleted hd =>
    exact Or.inl (by rw [hd]; rfl)

/-- Only a deletion leaves nothing of an authority. -/
theorem Changes.authority_eq_none_iff {c : Command} {ca : CertificateAuthority} {change : Change}
    (h : c.Changes ca change) :
    change.authority = none ↔ c.type = .deleteCertificateAuthority := by
  rw [type]
  cases h with
  | deleted hd => rw [hd]; exact ⟨fun _ => rfl, fun _ => rfl⟩
  | issued hd | revoked hd | subscribed hd | unsubscribed hd | ignored hd | configured hd =>
    rw [hd]
    exact ⟨nofun, nofun⟩

end Command

variable {X : Interface}

/-- Draws a number for an authority that is to be created. -/
def Command.drawUuid (c : Command) : Process X Uuid :=
  match c.details with
  | .createCertificateAuthority _ => Process.step .freshUuid
  | _ => pure (Uuid.ofNat 0)

namespace RunState

/-- The state after an authority was changed. -/
def changed (st : RunState X) (id : AggregateId) (found : Option CertificateAuthority)
    (change : Change) : RunState X :=
  { (st.noteEvents change.events).withEntry id
      ⟨found.map CertificateAuthority.version, change.authority, true, false⟩ with
    deletions := st.deletions ++ if change.authority.isNone then [id] else [] }

variable (st : RunState X)

@[simp] theorem noteEvent_deletions (event : AuthorityEvent) :
    (st.noteEvent event).deletions = st.deletions := by
  cases h : st.frames <;> simp [noteEvent, h]

@[simp] theorem noteEvents_deletions (events : List AuthorityEvent) :
    (st.noteEvents events).deletions = st.deletions := by
  induction events generalizing st with
  | nil => rfl
  | cons event rest ih => rw [noteEvents_cons, ih, noteEvent_deletions]

/-- Where an authority is left, no records are deleted. -/
theorem changed_some (id : AggregateId) (found : Option CertificateAuthority)
    (ca : CertificateAuthority) (events : List AuthorityEvent) :
    st.changed id found ⟨some ca, events⟩ =
      (st.noteEvents events).withEntry id
        (.changed (found.map CertificateAuthority.version) ca) := by
  -- events touch neither the copies nor the marks
  have h : st.deletions ++ [] = (st.noteEvents events).deletions := by simp
  simp only [changed, Option.isNone_some, Bool.false_eq_true, if_false, h]
  rfl

end RunState

/-- Lets an effect take place in a transaction that has found an authority. -/
def Effect.takePlace (effect : Effect) (st : RunState X) (id : AggregateId)
    (found : Option CertificateAuthority) : Process X (Except CommandError Unit × RunState X) :=
  Process.say st.logContext effect.lines >>= fun _ =>
    match effect.outcome with
    | .error err => pure (.error err, st.withEntry id (Entry.ofFound found))
    | .ok change => pure (.ok (), st.changed id found change)

namespace Engine

variable (e : Engine X) {inside : Nesting X} {st : RunState X} {c : Command}

/-! ### Handlers that hold the lock -/

/-- An action that starts with a lock gives up without it. -/
theorem act_lock_bind_run (id : AggregateId) (rest : Unit → Action X Unit) (st : RunState X) :
    (e.act inside (Action.lock id .exclusive >>= rest)).run st =
      Process.step (.acquire st.tx.id id .exclusive) >>= fun r =>
        match r with
        | .ok () => (e.act inside (rest ())).run st
        | .error err => pure (.error (.storage err), st) := by
  rw [act_bind_run, act_lock_run, bind_assoc]
  refine bind_congr fun r => ?_
  cases r <;> rfl

/-- The process of a handler from the lock on. -/
def locked (st : RunState X) (c : Command) (seen : Option (Option CertificateAuthority)) :
    Process X (Except CommandError Unit × RunState X) :=
  Process.step (.acquire st.tx.id c.authority.id .exclusive) >>= fun r =>
    match r with
    | .ok () =>
      c.drawUuid >>= fun uuid =>
        Process.lookUp c.authority.id seen >>= fun found =>
          (c.effect uuid found).takePlace st c.authority.id found
    | .error err => pure (.error (.storage err), st.seen c.authority.id seen)

/-- A handler that takes the lock runs as said if it does so once it has it. -/
theorem locked_of_rest (seen : Option (Option CertificateAuthority)) {rest : Unit → Action X Unit}
    (h : (e.act inside (rest ())).run (st.seen c.authority.id seen) =
      c.drawUuid >>= fun uuid =>
        Process.lookUp c.authority.id seen >>= fun found =>
          (c.effect uuid found).takePlace st c.authority.id found) :
    (e.act inside (Action.lock c.authority.id .exclusive >>= rest)).run
      (st.seen c.authority.id seen) = locked st c seen := by
  rw [act_lock_bind_run, locked, RunState.seen_txId]
  refine bind_congr fun r => ?_
  cases r with
  | ok _ => exact h
  | error err => rfl

section Handlers

variable (hst : st.tx.entries.find? c.authority.id = none)
  (seen : Option (Option CertificateAuthority))

include hst

/-- A handler that looks at the authority first runs as said if it does so once it has seen it. -/
theorem locked_of_get {rest : CertificateAuthority → Action X Unit}
    (hdraw : (c.drawUuid : Process X Uuid) = pure (Uuid.ofNat 0))
    (hnone : c.effect (Uuid.ofNat 0) none = .fails (.unknownAuthority c.authority.id))
    (hsome : ∀ ca, (e.act inside (rest ca)).run
        (st.withEntry c.authority.id (Entry.ofFound (some ca))) =
      (c.effect (Uuid.ofNat 0) (some ca)).takePlace st c.authority.id (some ca)) :
    (e.act inside (Action.lock c.authority.id .exclusive >>= fun _ =>
        Action.get c.authority.id >>= rest)).run (st.seen c.authority.id seen) =
      locked st c seen := by
  refine locked_of_rest e seen ?_
  rw [act_bind_run, act_get, Running.onCopy_run_seen hst, bind_assoc, hdraw, pure_bind]
  refine bind_congr fun found => ?_
  cases found with
  | none => simp only [pure_bind, hnone, Effect.takePlace, Effect.fails, Process.say]
  | some ca =>
    rw [pure_bind]
    exact hsome ca

theorem act_create_run {name : String} (hc : c.details = .createCertificateAuthority name) :
    (e.act inside (Handlers.create c)).run (st.seen c.authority.id seen) = locked st c seen := by
  rw [Handlers.create, hc]
  refine locked_of_rest e seen ?_
  rw [act_bind_run, act_freshUuid_run, bind_assoc, Command.drawUuid, hc]
  refine bind_congr fun uuid => ?_
  rw [pure_bind]
  dsimp only
  rw [act_bind_run, act_insert_run_seen e inside hst seen rfl, bind_assoc]
  refine bind_congr fun found => ?_
  cases found with
  | some ca =>
    simp only [pure_bind, Effect.takePlace, Command.effect, hc, Effect.fails, Process.say]
  | none =>
    simp only [pure_bind, Effect.takePlace, Command.effect, hc, Process.say, act_log_run,
      bind_assoc, RunState.changed_some, RunState.withEntry_logContext, RunState.noteEvents_nil]
    rfl

omit hst in
/-- What handlers of certificates do once they have found the authority: change it, work out its
version, and deliver an event to the maintaining listeners. -/
theorem act_certificates_run {inner : Nesting X}
    (hdeliver : inside.deliver = e.deliver inner)
    (hlisteners : st.scope.listeners = [Maintenance.aspa, Maintenance.roaAlerts])
    (ca : CertificateAuthority) (change : CertificateAuthority → CertificateAuthority)
    (event : VersionedId → AuthorityEvent)
    (hevent : ∀ a, Maintenance.certificatesOf (event a) = some a.id) :
    (e.act inside do
        Action.update c.authority.id change
        let authority ← Action.versionedId c.authority.id
        Action.publish (event authority)).run
          (st.withEntry c.authority.id (Entry.ofFound (some ca))) =
      (Effect.certificates c.authority.id ca (change ca) event).takePlace st c.authority.id
        (some ca) := by
  rw [act_bind_run, act_update_run e inside st (Entry.working_ofFound ca), pure_bind]
  dsimp only [Entry.update_ofFound]
  -- the copy is changed by now, so the version worked out is the one it will be written at
  rw [act_bind_run, act_versionedId_run e inside st (Entry.pendingVersion_changed _ _), pure_bind]
  dsimp only
  rw [act_publish, hdeliver, StateT.run_bind, StateT.run_modify, pure_bind,
    RunState.noteEvent_withEntry, deliver, StateT.run_bind, StateT.run_get, pure_bind]
  dsimp only
  rw [RunState.withEntry_scope, RunState.noteEvent_scope, hlisteners,
    deliverTo_standard_run e inner _ _ _ (hevent _), RunState.noteEvent_logContext,
    Effect.takePlace, Effect.certificates]
  dsimp only
  simp only [RunState.changed_some, RunState.noteEvents_cons, Option.map_some]

theorem act_updateIncoming_run {inner : Nesting X} (hdeliver : inside.deliver = e.deliver inner)
    (hlisteners : st.scope.listeners = [Maintenance.aspa, Maintenance.roaAlerts])
    {key : String} {resources : ResourceSet}
    (hc : c.details = .updateIncomingCertificate key resources) :
    (e.act inside (Handlers.updateIncoming c)).run (st.seen c.authority.id seen) =
      locked st c seen := by
  rw [Handlers.updateIncoming, hc]
  refine locked_of_get e hst seen (by rw [Command.drawUuid, hc]) (by rw [Command.effect, hc])
    fun ca => ?_
  simp only [Command.effect, hc]
  split
  · simp only [Effect.takePlace, Effect.fails, Process.say, pure_bind]
    rfl
  · exact act_certificates_run e hdeliver hlisteners ca _ _ fun _ => rfl

theorem act_revokeIncoming_run {inner : Nesting X} (hdeliver : inside.deliver = e.deliver inner)
    (hlisteners : st.scope.listeners = [Maintenance.aspa, Maintenance.roaAlerts])
    {key : String} (hc : c.details = .revokeIncomingCertificate key) :
    (e.act inside (Handlers.revokeIncoming c)).run (st.seen c.authority.id seen) =
      locked st c seen := by
  rw [Handlers.revokeIncoming, hc]
  refine locked_of_get e hst seen (by rw [Command.drawUuid, hc]) (by rw [Command.effect, hc])
    fun ca => ?_
  simp only [Command.effect, hc]
  split
  · simp only [Effect.takePlace, Effect.fails, Process.say, pure_bind]
    rfl
  · exact act_certificates_run e hdeliver hlisteners ca _ _ fun _ => rfl

theorem act_subscribe_run {email : String} {states : OrdSet RouteValidity}
    {frequency : AlertFrequency} (hc : c.details = .subscribeToRoaAlert email states frequency) :
    (e.act inside (Handlers.subscribe c)).run (st.seen c.authority.id seen) =
      match c.refusal with
      | some err => pure (.error err, st.seen c.authority.id seen)
      | none => locked st c seen := by
  rw [Handlers.subscribe, Command.refusal, hc]
  dsimp only
  -- the two refusals come before the lock
  split
  · rfl
  · split
    · rfl
    · refine locked_of_rest e seen ?_
      rw [act_update_run_seen e inside hst seen, Command.drawUuid, hc, pure_bind]
      refine bind_congr fun found => ?_
      cases found with
      | none =>
        simp only [Effect.takePlace, Command.effect, hc, Effect.fails, Process.say, pure_bind]
      | some ca =>
        simp only [Effect.takePlace, Command.effect, hc, Effect.changes, Process.say, pure_bind,
          RunState.changed_some, RunState.noteEvents_nil]
        rfl

theorem act_unsubscribe_run {email : String} {notify : Bool}
    (hc : c.details = .unsubscribeFromRoaAlert email notify) :
    (e.act inside (Handlers.unsubscribe c)).run (st.seen c.authority.id seen) =
      locked st c seen := by
  rw [Handlers.unsubscribe, hc]
  refine locked_of_get e hst seen (by rw [Command.drawUuid, hc]) (by rw [Command.effect, hc])
    fun ca => ?_
  simp only [Command.effect, hc]
  split
  · simp only [Effect.takePlace, Effect.fails, Process.say, pure_bind]
    rfl
  · rw [act_bind_run, act_update_run e inside st (Entry.working_ofFound ca), pure_bind]
    simp only [Effect.takePlace, RunState.changed_some, RunState.noteEvents_nil]
    split
    · simp only [Process.say, bind_assoc, pure_bind, act_log_run]
      rfl
    · simp only [Process.say, pure_bind]
      rfl

theorem act_updateIgnored_run {additions deletions : List AnnouncedRoute}
    (hc : c.details = .updateRoaAlertIgnoredAnnouncedRoutes additions deletions) :
    (e.act inside (Handlers.updateIgnored c)).run (st.seen c.authority.id seen) =
      locked st c seen := by
  rw [Handlers.updateIgnored, hc]
  refine locked_of_get e hst seen (by rw [Command.drawUuid, hc]) (by rw [Command.effect, hc])
    fun ca => ?_
  simp only [Command.effect, hc]
  split
  · simp only [Effect.takePlace, Effect.fails, Process.say, pure_bind]
    rfl
  · rw [act_update_run e inside st (Entry.working_ofFound ca)]
    simp only [Effect.takePlace, Effect.changes, Process.say, pure_bind, RunState.changed_some,
      RunState.noteEvents_nil]
    rfl

theorem act_updateAspa_run {ifMatch : Option String} {entries : List AspaEntry}
    {changes : OrdMap Asn AspaChange}
    (hc : c.details = .updateAspaConfiguration ifMatch entries changes) :
    (e.act inside (Handlers.updateAspa c)).run (st.seen c.authority.id seen) =
      locked st c seen := by
  rw [Handlers.updateAspa, hc]
  refine locked_of_get e hst seen (by rw [Command.drawUuid, hc]) (by rw [Command.effect, hc])
    fun ca => ?_
  simp only [Command.effect, hc]
  rw [act_bind_run, act_except_run, pure_bind]
  cases Handlers.newConfiguration ca ifMatch entries with
  | error err => simp only [Effect.takePlace, Effect.fails, Process.say, pure_bind]
  | ok updated =>
    dsimp only
    rw [act_update_run e inside st (Entry.working_ofFound ca)]
    simp only [Effect.takePlace, Effect.changes, Process.say, pure_bind, RunState.changed_some,
      RunState.noteEvents_nil]
    rfl

theorem act_delete_run (hc : c.details = .deleteCertificateAuthority) :
    (e.act inside (Handlers.delete c)).run (st.seen c.authority.id seen) = locked st c seen := by
  rw [Handlers.delete]
  refine locked_of_rest e seen ?_
  -- the copy is taken out at once, and what was taken out is only named in the log
  rw [act_bind_run, act_remove, Running.onCopy_run_seen hst, bind_assoc, Command.drawUuid, hc,
    pure_bind]
  refine bind_congr fun found => ?_
  cases found with
  | none => simp only [pure_bind, Effect.takePlace, Command.effect, hc, Effect.fails, Process.say]
  | some ca =>
    simp only [pure_bind, Effect.takePlace, Command.effect, hc, Process.say, bind_assoc]
    rw [act_bind_run, act_log_run, bind_assoc]
    refine bind_congr fun _ => ?_
    rw [pure_bind]
    dsimp only
    rw [act_deleteRecords_run]
    rfl

/-- **Every handler of this library** refuses what can be refused at once, takes the lock, looks at
the authority and lets the effect of the command take place. -/
theorem act_standard_run {inner : Nesting X} (hdeliver : inside.deliver = e.deliver inner)
    (hlisteners : st.scope.listeners = [Maintenance.aspa, Maintenance.roaAlerts]) :
    (e.act inside (Handlers.standard c.type c)).run (st.seen c.authority.id seen) =
      match c.refusal with
      | some err => pure (.error err, st.seen c.authority.id seen)
      | none => locked st c seen := by
  cases hc : c.details with
  | subscribeToRoaAlert email states frequency =>
    rw [Command.type, hc]
    exact act_subscribe_run e hst seen hc
  | createCertificateAuthority name =>
    rw [Command.type, Command.refusal, hc]
    exact act_create_run e hst seen hc
  | updateIncomingCertificate key resources =>
    rw [Command.type, Command.refusal, hc]
    exact act_updateIncoming_run e hst seen hdeliver hlisteners hc
  | revokeIncomingCertificate key =>
    rw [Command.type, Command.refusal, hc]
    exact act_revokeIncoming_run e hst seen hdeliver hlisteners hc
  | unsubscribeFromRoaAlert email notify =>
    rw [Command.type, Command.refusal, hc]
    exact act_unsubscribe_run e hst seen hc
  | updateRoaAlertIgnoredAnnouncedRoutes additions deletions =>
    rw [Command.type, Command.refusal, hc]
    exact act_updateIgnored_run e hst seen hc
  | updateAspaConfiguration ifMatch entries changes =>
    rw [Command.type, Command.refusal, hc]
    exact act_updateAspa_run e hst seen hc
  | deleteCertificateAuthority =>
    rw [Command.type, Command.refusal, hc]
    exact act_delete_run e hst seen hc

end Handlers

end Engine

end RpkiAuthority
