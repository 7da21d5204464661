import Mathlib.Data.List.Forall2
import RpkiAuthority.Proofs.Engine.Story
import RpkiAuthority.Proofs.Storage.Session

/-!
# Who an event is attributed to

The records that an execution adds to the audit log are those of its story (`Story.recorded`): one
for each command, at whatever depth, that had an effect and was sent by a user or led to events,
with the events of this command and no others (`Engine.execute_attributed`).

The version of a record is the committed one as far as the transaction knows it. The transaction
knows it of all that it has changed, since the commit checks that nobody else has changed the same.
What it has only looked at it takes to be at the version at which it looked. So if something changes
an authority behind the back of a command that has an effect but leaves this authority alone, then
the record has a version that the authority is no longer at (`Engine.not_attributed_to_committed`).
Where nothing outside of the engine can do so the version is always the committed one.
-/

namespace RpkiAuthority

open World

variable {X : Interface} {S : Type}

/-! ### Versions that are known -/

/-- **A transaction is up to date** about an authority if it has looked at it, and has changed it or
nobody else has since. -/
def Transaction.UpToDate (tx : Transaction CertificateAuthority)
    (store : Store CertificateAuthority) (id : AggregateId) : Prop :=
  ∃ entry, tx.entries.find? id = some entry ∧
    (entry.hasChanges = true ∨ store.version? id = entry.base)

/-- **A commit knows the version** of what the transaction is up to date about. -/
theorem Transaction.UpToDate.find?_versions {tx : Transaction CertificateAuthority}
    {store after : Store CertificateAuthority} {id : AggregateId} {versions : VersionMap}
    (h : tx.UpToDate store id) (hcommit : store.commit tx = .ok (versions, after))
    (huntouched : ∀ entry, tx.entries.find? id = some entry → entry.hasChanges = false →
      entry.pendingVersion = entry.base) :
    versions.find? id = after.version? id := by
  obtain ⟨entry, hfind, hentry⟩ := h
  have hafter := Store.get?_of_commit hcommit id
  obtain ⟨-, rfl, -⟩ := Store.commit_eq_ok hcommit
  rw [Transaction.find?_versions, hfind, Option.bind_some, Store.version?, hafter, hfind,
    Option.filter_some]
  by_cases hchanges : entry.hasChanges = true
  · rw [if_pos hchanges]
    exact entry.version_written.symm
  · rw [if_neg hchanges, huntouched entry hfind (by simpa using hchanges)]
    exact (hentry.resolve_left hchanges).symm

namespace RunState

/-- **A state is accounted for**: the transaction has looked at every authority that there is a
record about, and what it has not changed is at the version at which it looked. -/
structure Accounted (s : RunState X) : Prop where
  covered : ∀ r ∈ s.records, (s.tx.entries.find? r.command.authority.id).isSome = true
  untouched : ∀ {id entry}, s.tx.entries.find? id = some entry → entry.hasChanges = false →
    entry.pendingVersion = entry.base

theorem accounted_new (tx : TxId) (context : LogContext) :
    (RunState.new (X := X) (.new tx) context).Accounted :=
  ⟨fun _ h => absurd h List.not_mem_nil, fun h => absurd h (Option.some_ne_none _).symm⟩

/-- A copy that is put in place of another one, or of none. -/
theorem Accounted.setEntry {s : RunState X} (h : s.Accounted) {id : AggregateId}
    {entry : Entry CertificateAuthority}
    (hentry : entry.hasChanges = false → entry.pendingVersion = entry.base) :
    RunState.Accounted { s with tx := s.tx.setEntry id entry } := by
  refine ⟨fun r hr => ?_, fun {q found} hfind hchanges => ?_⟩
  · obtain ⟨found, hfound⟩ := Option.isSome_iff_exists.mp (h.covered r hr)
    by_cases hid : r.command.authority.id = id
    · exact Option.isSome_iff_exists.mpr
        ⟨entry, OrdMap.find?_insert_eq_some_iff.mpr (.inl ⟨hid, rfl⟩)⟩
    · exact Option.isSome_iff_exists.mpr
        ⟨found, OrdMap.find?_insert_eq_some_iff.mpr (.inr ⟨hid, hfound⟩)⟩
  · rcases OrdMap.find?_insert_eq_some_iff.mp hfind with ⟨-, rfl⟩ | ⟨-, hfind⟩
    · exact hentry hchanges
    · exact h.untouched hfind hchanges

theorem accounted_lenient (outside : Outside X S) :
    Running.Relation.Lenient outside fun (s : RunState X) _ s' _ => s.Accounted → s'.Accounted where
  refl _ _ := id
  trans _ _ _ _ _ _ h h' := h' ∘ h
  step _ _ _ _ _ _ _ := id
  look s id w _ h := h.setEntry fun _ => by
    cases hfound : w.store.get? id <;> rfl
  change s id entry entry' w hfind hentry h := h.setEntry fun hchanges => by
    obtain rfl := hentry.same hchanges
    exact h.untouched hfind hchanges
  mark _ _ _ h := ⟨h.covered, h.untouched⟩
  beside _ _ _ _ h := ⟨h.covered, h.untouched⟩
  record s r w hlooked h := by
    refine ⟨fun r' hr' => ?_, h.untouched⟩
    rcases List.mem_append.mp hr' with hr' | hr'
    · exact h.covered r' hr'
    · rw [List.mem_singleton.mp hr']
      exact hlooked

/-- Nobody has changed what the transaction has looked at. -/
def Based (s : RunState X) (w : World S) : Prop :=
  ∀ id entry, s.tx.entries.find? id = some entry → entry.base = w.store.version? id

/-- **Nobody changes what a transaction has looked at** where the outside is separate from the
store. -/
theorem based_lenient {outside : Outside X S} (hout : outside.Separate) :
    Running.Relation.Lenient outside fun (s : RunState X) w s' w' =>
      w'.store.aggregates = w.store.aggregates ∧ (s.Based w → s'.Based w') where
  refl _ _ := ⟨rfl, id⟩
  trans _ _ _ _ _ _ h h' := ⟨h'.1.trans h.1, h'.2 ∘ h.2⟩
  step s w q r w' hq taken := by
    have hsame : w'.store.aggregates = w.store.aggregates := by
      have heffect := stepEffect_of_step taken
      cases q with
      | start | commit | release => exact hq.elim
      | acquire tx id mode =>
        rcases heffect with rfl | ⟨locks, -, rfl⟩ <;> rfl
      | outside q =>
        obtain rfl : w' = _ := heffect
        rw [(hout q w).1]
      | read | recordsSince | log | measure | draw | freshUuid | announcements | stuck =>
        rw [heffect.1]
    refine ⟨hsame, fun h id entry hfind => (h id entry hfind).trans ?_⟩
    rw [Store.version?, Store.version?, Store.get?, Store.get?, hsame]
  look s id w _ := by
    refine ⟨rfl, fun h q entry hfind => ?_⟩
    rcases OrdMap.find?_insert_eq_some_iff.mp hfind with ⟨rfl, rfl⟩ | ⟨-, hfind⟩
    · rfl
    · exact h q entry hfind
  change s id entry entry' w hfind hentry := by
    refine ⟨rfl, fun h q found hfound => ?_⟩
    rcases OrdMap.find?_insert_eq_some_iff.mp hfound with ⟨rfl, rfl⟩ | ⟨-, hfound⟩
    · exact hentry.base.trans (h q entry hfind)
    · exact h q found hfound
  mark _ _ _ := ⟨rfl, fun h => h⟩
  beside _ _ _ _ := ⟨rfl, fun h => h⟩
  record _ _ _ _ := ⟨rfl, fun h => h⟩

end RunState

/-! ### Records that are written -/

/-- **A record tells of a command and its events**, as it is written by a transaction that turns one
world into another. The version is the committed one if there is one, and if the transaction is up
to date about the authority or the outside is separate from the store. -/
structure CommandRecord.Tells (outside : Outside X S) (tx : Transaction CertificateAuthority)
    (w w' : World S) (told : Command × List AuthorityEvent) (r : CommandRecord) : Prop where
  written : ∃ n version, r = AuditLog.recordOf n w.now ⟨told.1.authority.id, version⟩ told.1
    (told.2.map AuthorityEvent.text)
  version : outside.Separate ∨ tx.UpToDate w.store told.1.authority.id →
    ∀ ca, w'.store.get? told.1.authority.id = some ca → r.authority.version = ca.version

namespace World

/-- Every record that was put off is written, in order, with the committed version where it is
known. -/
theorem foldl_addRecord (now : Timestamp) (versions : VersionMap) (records : List PendingRecord)
    (audit : AuditLog) :
    ∃ added, (records.foldl (addRecord now versions) audit).records = audit.records ++ added ∧
      List.Forall₂ (fun r record => ∃ n, record = AuditLog.recordOf n now
        ⟨r.command.authority.id, (versions.find? r.command.authority.id).getD r.version⟩ r.command
          r.events) records added := by
  induction records generalizing audit with
  | nil => exact ⟨[], (List.append_nil _).symm, .nil⟩
  | cons r rest ih =>
    obtain ⟨added, hadded, hrest⟩ := ih (addRecord now versions audit r)
    refine ⟨_ :: added, ?_, .cons ⟨audit.nextId, rfl⟩ hrest⟩
    rw [List.foldl_cons, hadded, addRecord, AuditLog.add, List.append_assoc]
    rfl

/-- The audit log after a commit. -/
theorem audit_of_commit {w w' : World S} {tx : Transaction CertificateAuthority}
    {deletions : List AggregateId} {records : List PendingRecord}
    (h : w.commit tx deletions records = .ok w') :
    ∃ versions, w.store.commit tx = .ok (versions, w'.store) ∧
      w'.audit = records.foldl (addRecord w.now versions)
        (deletions.foldl (fun audit id => (audit.delete w.now id).2) w.audit) := by
  rw [World.commit] at h
  cases hstore : w.store.commit tx with
  | error err =>
    rw [hstore] at h
    exact absurd h (by simp)
  | ok committed =>
    rw [hstore] at h
    obtain rfl := Except.ok.inj h
    exact ⟨committed.1, rfl, rfl⟩

end World

namespace Engine

variable {outside : Outside X S} {e : Engine X} {levels : Nat} {c : Command}
  {status : CommandStatus} {w w' : World S}

/-- An execution that does not fail ends with an attempt that is committed. -/
theorem execute_commits (hout : outside.Orderly) (hw : Reachable outside w)
    (h : World.execute outside e levels c w = some (.ok status, w')) :
    ∃ (u : World S) (state : RunState X) (x v : World S), OnlyOutside outside w x ∧
      runAlone outside (((e.nesting levels).run c).run
        (RunState.new u.store.begin.1 (contextOf c))) { u with store := u.store.begin.2 } =
          some ((.ok status, state), x) ∧
      x.commit state.tx state.deletions state.records = .ok v ∧ w'.committed = v.committed := by
  obtain ⟨result, v, hattempts, h⟩ := runAlone_bind_eq_some.mp h
  obtain ⟨_, v₁, hv₁, h⟩ := runAlone_bind_eq_some.mp h
  obtain ⟨_, v₂, hv₂, h⟩ := runAlone_bind_eq_some.mp h
  obtain ⟨-, rfl⟩ := Prod.mk.inj (Option.some.inj hv₁)
  obtain ⟨-, rfl⟩ := Prod.mk.inj (Option.some.inj hv₂)
  obtain ⟨rfl, rfl⟩ := Prod.mk.inj (Option.some.inj h)
  obtain ⟨⟨err, herr⟩, -⟩ | ⟨status', u, hstatus, hu, hlast⟩ :=
    attempts_cases hout e levels c _ hw hattempts
  · exact absurd herr (by simp)
  obtain rfl := Except.ok.inj hstatus
  obtain ⟨state, x, v', hrun, hcommit, hsame⟩ := attempt_commits hlast
  -- the command leaves the world undisturbed before the commit
  have hstarted : Reachable outside { u with store := u.store.begin.2 } :=
    hu.reachable.step (q := .start) rfl trivial
  obtain ⟨-, hx⟩ :=
    (keeps_nesting (inTransaction_tolerant hout).lenient e levels).1 c _ hrun
  have hx := hx (Nat.lt_succ_self _) hstarted
  refine ⟨u, state, x, v', hu.committed.trans (.trans (.of_eq rfl) hx.committed), hrun, hcommit, ?_⟩
  rw [committed_measure, committed_measure, hsame]

/-- **The records of an execution are those of its story.** For any handlers and listeners, and
every command that does not fail, the records added to the audit log are one for each command of the
story, at whatever depth, that had an effect and was sent by a user or led to events; they come in
the order in which these commands ended, and each has the events of its command and no others, in
order. Its version is that at which the authority is committed, if there is one, provided that
nobody has changed the authority since the transaction looked at it or the transaction has changed
it itself; and without this proviso where the outside is separate from the store. -/
theorem execute_attributed (hout : outside.Orderly) (hw : Reachable outside w)
    (h : World.execute outside e levels c w = some (.ok status, w')) :
    ∃ (u : World S) (state : RunState X) (x : World S), OnlyOutside outside w x ∧
      runAlone outside (((e.nesting levels).run c).run
        (RunState.new u.store.begin.1 (contextOf c))) { u with store := u.store.begin.2 } =
          some ((.ok status, state), x) ∧
      ∃ added,
        w'.audit.records = (state.deletions.foldl (fun audit id => (audit.delete x.now id).2)
          x.audit).records ++ added ∧
        List.Forall₂ (CommandRecord.Tells outside state.tx x w')
          ((teller outside e levels).run c (RunState.new u.store.begin.1 (contextOf c))
            { u with store := u.store.begin.2 }).recorded added := by
  obtain ⟨u, state, x, v, hx, hrun, hcommit, hsame⟩ := execute_commits hout hw h
  obtain ⟨haggregates, haudit⟩ := Prod.mk.inj hsame
  obtain ⟨versions, hstore, hwritten⟩ := audit_of_commit hcommit
  obtain ⟨added, hadded, hrecords⟩ := foldl_addRecord x.now versions state.records
    (state.deletions.foldl (fun audit id => (audit.delete x.now id).2) x.audit)
  refine ⟨u, state, x, hx, hrun, added, by rw [haudit, hwritten, hadded], ?_⟩
  have haccounted := (keeps_nesting (RunState.accounted_lenient outside) e levels).1 c _ hrun
    (RunState.accounted_new _ _)
  -- the versions that the transaction knows are the committed ones
  have hversion : ∀ r ∈ state.records,
      outside.Separate ∨ state.tx.UpToDate x.store r.command.authority.id →
        ∀ ca, w'.store.get? r.command.authority.id = some ca →
          (versions.find? r.command.authority.id).getD r.version = ca.version := by
    intro r hr hknown ca hca
    have hup : state.tx.UpToDate x.store r.command.authority.id := by
      rcases hknown with hsep | hup
      · obtain ⟨entry, hfind⟩ := Option.isSome_iff_exists.mp (haccounted.covered r hr)
        have hbased := ((keeps_nesting (RunState.based_lenient hsep) e levels).1 c _ hrun).2
          fun _ _ hnone => absurd hnone (Option.some_ne_none _).symm
        exact ⟨entry, hfind, .inr (hbased _ entry hfind).symm⟩
      · exact hup
    have hfound := hup.find?_versions hstore fun entry hfind => haccounted.untouched hfind
    have hafter : v.store.version? r.command.authority.id = some ca.version := by
      rw [Store.version?, Store.get?, ← haggregates]
      exact congrArg (Option.map CertificateAuthority.version) hca
    rw [hfound, hafter, Option.getD_some]
  have htold : state.records.map (fun r => (r.command, r.events)) =
      (((teller outside e levels).run c (RunState.new u.store.begin.1 (contextOf c))
        { u with store := u.store.begin.2 }).recorded).map
          fun p => (p.1, p.2.map AuthorityEvent.text) :=
    ((truthful_nesting outside e levels).run hrun).records
  -- what is to be shown of a record depends on its command and events alone
  have hall : List.Forall₂ (fun (p : Command × List String) record =>
      (∃ n version, record = AuditLog.recordOf n x.now ⟨p.1.authority.id, version⟩ p.1 p.2) ∧
        (outside.Separate ∨ state.tx.UpToDate x.store p.1.authority.id →
          ∀ ca, w'.store.get? p.1.authority.id = some ca → record.authority.version = ca.version))
      (state.records.map fun r => (r.command, r.events)) added := by
    rw [List.forall₂_map_left_iff]
    refine ((List.forall₂_and_left _ _).mpr ⟨hversion, hrecords⟩).imp ?_
    rintro r record ⟨hknown, n, rfl⟩
    exact ⟨⟨n, _, rfl⟩, hknown⟩
  rw [htold, List.forall₂_map_left_iff] at hall
  exact hall.imp fun _ _ h => ⟨h.1, h.2⟩

/-- A handler that publishes an event, runs a command inside and records another event; and handlers
that publish an event and are done. -/
def nested : Engine scriptInterface where
  settings := .standard
  handlers
    | .updateIncomingCertificate =>
      Script.handler 0 [
        ⟨.publish (.incomingCertificateRevoked ⟨1, 0⟩ "first"), none, none⟩,
        ⟨.execute ⟨1, some 0, none, .fixed (.revokeIncomingCertificate "key")⟩ false, none, none⟩,
        ⟨.record (.incomingCertificateRevoked ⟨1, 0⟩ "last"), none, none⟩]
    | _ => Script.handler 1 [⟨.publish (.incomingCertificateRevoked ⟨1, 0⟩ "inside"), none, none⟩]
  listeners := []

/-- The record of the command inside comes first and has the one event that was published meanwhile;
the command around it has the other two. -/
theorem execute_attributed_nested :
    ∃ status w',
      World.execute Script.answer nested 3 around withAuthority = some (.ok status, w') ∧
      w'.audit.records.map (fun r => (r.type, r.events)) =
        [(.revokeIncomingCertificate, "Revoked incoming certificate for key inside."),
          (.updateIncomingCertificate, "Revoked incoming certificate for key first.\n" ++
            "Revoked incoming certificate for key last.")] ∧
      ∃ (u : World ScriptState) (state : RunState scriptInterface) (x : World ScriptState)
        (added : _),
        w'.audit.records = (state.deletions.foldl (fun audit id => (audit.delete x.now id).2)
          x.audit).records ++ added ∧
        List.Forall₂ (CommandRecord.Tells Script.answer state.tx x w')
          ((teller Script.answer nested 3).run around
            (RunState.new u.store.begin.1 (contextOf around))
            { u with store := u.store.begin.2 }).recorded added := by
  have hcompute : ((World.execute Script.answer nested 3 around withAuthority).map fun p =>
      (p.1.isOk, p.2.audit.records.map fun r => (r.type, r.events))) =
        some (true, [(.revokeIncomingCertificate, "Revoked incoming certificate for key inside."),
          (.updateIncomingCertificate, "Revoked incoming certificate for key first.\n" ++
            "Revoked incoming certificate for key last.")]) := by
    decide +kernel
  obtain ⟨⟨r, w'⟩, h, hfound⟩ := Option.map_eq_some_iff.mp hcompute
  obtain ⟨hok, hrecords⟩ := Prod.mk.inj hfound
  cases r with
  | error err => exact absurd hok (by simp [Except.isOk, Except.toBool])
  | ok status =>
    obtain ⟨u, state, x, -, -, added, hadded, htells⟩ :=
      execute_attributed Outside.orderly_script reachable_withAuthority h
    exact ⟨status, w', h, hrecords, u, state, x, added, hadded, htells⟩

/-! ### A version that is not the committed one -/

/-- A handler that does nothing but have the authority changed behind the back of its command. -/
def onlyInterfering : Engine scriptInterface where
  settings := .standard
  handlers _ := Script.handler 0 [⟨.interfere false, none, none⟩]
  listeners := []

/-- **The version of a record need not be the committed one.** The command has an effect and leaves
the authority alone, which is changed behind its back. So its record is about version zero, but the
authority is committed at version one. -/
theorem not_attributed_to_committed :
    ∃ status w' r,
      World.execute Script.answer onlyInterfering 1
        ⟨⟨1, 0⟩, .user "alice", .subscribeToRoaAlert "a@example.org" (OrdSet.ofMembers [.unknown])
          .daily⟩ withAuthority = some (.ok status, w') ∧
      status.hasEffect = true ∧ w'.audit.records = [r] ∧ r.authority = ⟨1, 0⟩ ∧
      w'.store.version? 1 = some 1 := by
  have hcompute : ((World.execute Script.answer onlyInterfering 1
      ⟨⟨1, 0⟩, .user "alice", .subscribeToRoaAlert "a@example.org" (OrdSet.ofMembers [.unknown])
        .daily⟩ withAuthority).map fun p =>
      (p.1.toOption, p.2.audit.records.map CommandRecord.authority, p.2.store.version? 1)) =
        some (some ⟨true, ⟨1, 0⟩⟩, [⟨1, 0⟩], some 1) := by
    decide +kernel
  obtain ⟨⟨result, w'⟩, h, hfound⟩ := Option.map_eq_some_iff.mp hcompute
  obtain ⟨hstatus, hfound⟩ := Prod.mk.inj hfound
  obtain ⟨hrecords, hversion⟩ := Prod.mk.inj hfound
  obtain ⟨r, rest, hw', hr, hrest⟩ := List.map_eq_cons_iff.mp hrecords
  obtain rfl := List.map_eq_nil_iff.mp hrest
  cases result with
  | error err => exact absurd hstatus (by simp [Except.toOption])
  | ok status =>
    obtain rfl := Option.some.inj hstatus
    exact ⟨_, w', r, h, rfl, hw', hr, hversion⟩

end Engine

end RpkiAuthority
