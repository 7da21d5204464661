import RpkiAuthority.Proofs.Concurrent.Serves
import RpkiAuthority.Proofs.Storage.Written

/-!
# Executing a command among others

The execution of a command serves it, whatever others do meanwhile (`Engine.execute_serves`).

What carries this is one fact about the authority that was looked at: either it is still as it was
found, with whatever was found out about it since, or it has passed (`Command.Holds`). Nothing that
others do makes this false, and every look at what is shared can be added to it. When it comes to
the commit, the version that was found is compared with the one that is there. An authority that has
passed has a later version, or is gone for good, so the commit fails; and where it succeeds the
authority is as it was found, and the effect that was worked out from it is the effect of the
command at this moment. It does not matter for this which locks are held, and whether the lock or
the look at the authority came first.
-/

namespace RpkiAuthority

variable {X : Interface} {S : Type} {outside : Outside X S}

namespace Command

/-! ### What is known of an authority -/

/-- A fact about a world is about one authority and its records only. -/
def Local (id : AggregateId) (fact : World S → Prop) : Prop :=
  ∀ ⦃w w' : World S⦄, w.SameAuthority id w' → fact w → fact w'

/-- **An authority is as it was found**, with a fact about it, unless it has passed. -/
def Holds (c : Command) (found : Option CertificateAuthority) (fact : World S → Prop) (w : World S)
    (commands : List Command) : Prop :=
  Passed c.authority.id found w commands ∨ w.store.get? c.authority.id = found ∧ fact w

variable {c : Command} {found : Option CertificateAuthority} {fact : World S → Prop}
  {w w' : World S} {commands later : List Command}

theorem Holds.mono {fact' : World S → Prop} (h : c.Holds found fact w commands)
    (himp : w.store.get? c.authority.id = found → fact w → fact' w) :
    c.Holds found fact' w commands :=
  h.imp_right fun ⟨hget, hfact⟩ => ⟨hget, himp hget hfact⟩

/-- **What is known lasts.** -/
theorem lasting_holds (hlocal : Local c.authority.id fact) :
    Process.Lasting (c.Holds found fact) := by
  rintro w commands w' later hmeanwhile (hpassed | ⟨rfl, hfact⟩)
  · exact Or.inl (hpassed.meanwhile hmeanwhile)
  · rcases hmeanwhile.same_or_passed c.authority.id with hsame | hpassed
    · exact Or.inr ⟨hsame.get?, hlocal hsame hfact⟩
    · exact Or.inl hpassed

/-- Whether a command is stale is a fact about its authority. -/
theorem stale_of_sameAuthority (h : w.SameAuthority c.authority.id w') :
    c.stale w' = c.stale w := by
  rw [stale, stale, h.get?, AuditLog.since_eq, AuditLog.since_eq, h.current]

theorem local_fresh : Local (S := S) c.authority.id fun w => c.stale w = none :=
  fun _ _ h hfresh => (stale_of_sameAuthority h).trans hfresh

end Command

/-! ### Ending a transaction -/

namespace World

variable {w u : World S} {tx : Transaction CertificateAuthority} {deletions : List AggregateId}
  {records : List PendingRecord}

/-- A commit that succeeds commits the store, and writes to the audit log. -/
theorem commit_eq_ok (h : w.commit tx deletions records = .ok u) :
    ∃ versions, w.store.commit tx = .ok (versions, u.store) ∧
      u.audit = records.foldl (addRecord w.now versions)
        (deletions.foldl (fun audit id => (audit.delete w.now id).2) w.audit) := by
  rw [commit] at h
  split at h
  · exact absurd h (by simp)
  · next versions store hstore =>
    obtain rfl := Except.ok.inj h
    exact ⟨versions, hstore, rfl⟩

theorem hasChanges_setEntry (htx : tx.entries = OrdMap.empty) (id : AggregateId)
    (e : Entry CertificateAuthority) : (tx.setEntry id e).hasChanges = e.hasChanges := by
  rw [Transaction.hasChanges, OrdMap.values, entries_setEntry htx]
  exact Bool.or_false _

/-- What was only looked at is not written. -/
theorem committed_of_commit_ofFound {id : AggregateId} {found : Option CertificateAuthority}
    (htx : tx.entries = OrdMap.empty)
    (h : w.commit (tx.setEntry id (Entry.ofFound found)) [] [] = .ok u) :
    u.committed = w.committed := by
  obtain ⟨versions, hstore, haudit⟩ := commit_eq_ok h
  obtain ⟨-, -, hwritten⟩ := Store.commit_eq_ok hstore
  rw [entries_setEntry htx] at hwritten
  exact Prod.ext (congrArg Store.aggregates hwritten) haudit

end World

namespace Process

variable {c : Command} {w : World S} {commands : List Command}
  {tx : Transaction CertificateAuthority} {found : Option CertificateAuthority}

theorem quiet_giveBack (tx : TxId) (err : CommandError) :
    Quiet (fun r => r = .error err) (giveBack tx err : Process X _) :=
  Quiet.step_bind rfl fun _ => rfl

/-- Giving a transaction back has no effect. -/
theorem serves_giveBack (tx : TxId) (err : CommandError) :
    Serves outside c (giveBack tx err) w commands :=
  Quiet.serves ((quiet_giveBack tx err).mono fun _ h => h ▸ rfl)

theorem quiet_finalVersion (c : Command) (entry : Entry CertificateAuthority) :
    Quiet (fun _ => True) (c.finalVersion entry : Process X _) := by
  rw [Command.finalVersion]
  cases entry.pendingVersion with
  | some version => trivial
  | none =>
    refine Quiet.step_bind rfl fun found => ?_
    cases found <;> trivial

/-- **Ending a transaction with a commit** serves the command if the commit, where it succeeds,
writes nothing or is the end of the command. -/
theorem serves_conclude {deletions : List AggregateId} {records : List PendingRecord}
    {status : CommandStatus}
    (h : ∀ ⦃u later v⦄, w.Meanwhile commands u later →
      (∀ id, Deleted id later → u.store.get? id = none) → u.commit tx deletions records = .ok v →
      (tx.hasChanges = false ∧ v.committed = u.committed ∧ status.hasEffect = false) ∨
      (tx.hasChanges = true ∧ (NotRecreated (later ++ [c]) →
        status.hasEffect = true ∧ c.Outcome u (.ok status) v))) :
    Serves outside c (conclude tx deletions records status) w commands := by
  intro u later r v hmeanwhile hgone hstep
  cases hcommit : u.commit tx deletions records with
  | error e =>
    have hfailed : World.step outside (.commit tx deletions records) u = some (.error e, u) :=
      World.step_commit_error hcommit
    obtain ⟨rfl, rfl⟩ := Prod.mk.inj (Option.some.inj (hfailed.symm.trans hstep))
    refine Or.inl ⟨?_, rfl, Quiet.serves (Quiet.step_bind rfl fun _ => rfl)⟩
    rw [SharedQuery.writes, hcommit]
    exact Bool.and_false _
  | ok u' =>
    have hdone : World.step outside (.commit tx deletions records) u = some (.ok (), u') :=
      World.step_commit_ok hcommit
    obtain ⟨rfl, rfl⟩ := Prod.mk.inj (Option.some.inj (hdone.symm.trans hstep))
    have hwrites : SharedQuery.writes (X := X) u (.commit tx deletions records) =
        tx.hasChanges := by
      rw [SharedQuery.writes, hcommit]
      exact Bool.and_true _
    rw [hwrites]
    rcases h hmeanwhile hgone hcommit with ⟨hno, hsame, hstatus⟩ | ⟨hyes, heffect⟩
    · refine Or.inl ⟨hno, hsame, Quiet.serves (Quiet.step_bind rfl fun _ => ?_)⟩
      exact if_neg (by rw [hstatus]; exact Bool.false_ne_true)
    · refine Or.inr ⟨hyes, fun hlasting => ?_⟩
      obtain ⟨heffective, houtcome⟩ := heffect hlasting
      exact ⟨status, heffective, houtcome, Quiet.step_bind rfl fun _ => rfl⟩

/-- A transaction that has only looked at an authority has no effect, committed or not. -/
theorem serves_conclude_ofFound (htx : tx.entries = OrdMap.empty) {id : AggregateId}
    {status : CommandStatus} (hstatus : status.hasEffect = false) :
    Serves outside c (conclude (tx.setEntry id (Entry.ofFound found)) [] [] status) w commands :=
  serves_conclude fun _ _ _ _ _ hcommit =>
    Or.inl ⟨World.hasChanges_setEntry htx _ _, World.committed_of_commit_ofFound htx hcommit,
      hstatus⟩

/-- **A commit that succeeds has found the authority as it was.** -/
theorem holds_of_commit {fact : World S → Prop} (h : c.Holds found fact w commands)
    {uuid : Uuid} {change : Change} (heffect : (c.effect uuid found).outcome = .ok change)
    {deletions : List AggregateId} {records : List PendingRecord} {u : World S}
    (hcommit : w.commit (tx.setEntry c.authority.id (change.entry found)) deletions records = .ok u)
    (hgone : ∀ id, Deleted id commands → w.store.get? id = none)
    (hlasting : NotRecreated (commands ++ [c])) :
    w.store.get? c.authority.id = found ∧ fact w := by
  obtain ⟨versions, hstore, -⟩ := World.commit_eq_ok hcommit
  have hversion : w.store.version? c.authority.id = found.map CertificateAuthority.version :=
    Store.version?_of_commit hstore (OrdMap.find?_insert_self tx.entries _ _) rfl
  refine h.resolve_left fun hpassed => ?_
  rcases hpassed with hdeleted | ⟨ca, hget, hlater⟩
  · -- there is none, so there was none, and the command creates what was deleted
    rw [Store.version?, hgone _ hdeleted] at hversion
    obtain rfl : found = none := Option.map_eq_none_iff.mp hversion.symm
    obtain ⟨name, hd, -⟩ := Command.effect_none_eq_ok heffect
    exact hlasting.type_ne_create hdeleted (by rw [Command.type, hd]; rfl)
  · rw [Store.version?, hget] at hversion
    obtain ⟨old, rfl, hold⟩ := Option.map_eq_some_iff.mp hversion.symm
    exact absurd (hlater old rfl) (hold ▸ Nat.lt_irrefl _)

/-- **The commit of a change** is the end of the command as if it were executed alone. -/
theorem serves_conclude_change {version : Nat} {uuid : Uuid} {change : Change}
    (h : c.Holds found (fun w => c.stale w = none ∧ version = change.version found) w commands)
    (htx : tx.entries = OrdMap.empty) (hrefusal : c.refusal = none)
    (heffect : (c.effect uuid found).outcome = .ok change) :
    Serves outside c
      (conclude (tx.setEntry c.authority.id (change.entry found))
        (if change.authority.isNone then [c.authority.id] else [])
        (c.recorded version change.events) ⟨true, ⟨c.authority.id, version⟩⟩) w commands := by
  refine serves_conclude fun u later v hmeanwhile hgone hcommit =>
    Or.inr ⟨World.hasChanges_setEntry htx _ _, fun hlasting => ⟨rfl, ?_⟩⟩
  have hlocal : Command.Local (S := S) c.authority.id
      fun w => c.stale w = none ∧ version = change.version found :=
    fun _ _ hsame hfact => ⟨Command.local_fresh hsame hfact.1, hfact.2⟩
  obtain ⟨hget, hfresh, rfl⟩ := holds_of_commit (Command.lasting_holds hlocal hmeanwhile h)
    heffect hcommit hgone hlasting
  subst hget
  -- the authority is at the version that was found, so there is one way to write the change
  obtain rfl := Except.ok.inj ((World.commit_setEntry htx rfl _ _).symm.trans hcommit)
  exact .effective hfresh hrefusal heffect (World.writeEntry_entry _ _ _)
    (World.audit_written htx _ _) rfl

/-- The version that a change leads to is read off the store where the authority is deleted. -/
theorem serves_finalVersion_bind {uuid : Uuid} {change : Change}
    {f : Nat → Process X (Except CommandError CommandStatus)}
    (h : c.Holds found (fun w => c.stale w = none) w commands)
    (heffect : (c.effect uuid found).outcome = .ok change)
    (hf : ∀ ⦃version u k⦄,
      c.Holds found (fun w => c.stale w = none ∧ version = change.version found) u k →
        Serves outside c (f version) u k) :
    Serves outside c (c.finalVersion (change.entry found) >>= f) w commands := by
  rw [Command.finalVersion, World.pendingVersion_entry]
  cases hauthority : change.authority with
  | some ca => exact hf (h.mono fun _ hfresh => ⟨hfresh, rfl⟩)
  | none =>
    refine serves_step_bind (q := .read c.authority.id) rfl fun u k r v hmeanwhile hstep => ?_
    obtain ⟨rfl, rfl⟩ := Prod.mk.inj (Option.some.inj hstep)
    have hholds : c.Holds found (fun w => c.stale w = none) u k :=
      Command.lasting_holds Command.local_fresh hmeanwhile h
    cases hget : u.store.get? c.authority.id with
    | none =>
      refine hf (hholds.mono fun hfound hfresh => ⟨hfresh, ?_⟩)
      -- a deletion has found what it deletes
      obtain rfl := hfound.symm.trans hget
      obtain ⟨name, -, rfl⟩ := Command.effect_none_eq_ok heffect
      exact absurd hauthority (Option.some_ne_none _)
    | some ca =>
      refine hf (hholds.mono fun hfound hfresh => ⟨hfresh, ?_⟩)
      obtain rfl := hfound.symm.trans hget
      rw [Change.version, hauthority]
      rfl

/-- **Settling an effect** that was worked out from what was found. -/
theorem serves_settle {uuid : Uuid} (h : c.Holds found (fun w => c.stale w = none) w commands)
    (htx : tx.entries = OrdMap.empty) (hrefusal : c.refusal = none) :
    Serves outside c (c.settle tx found (c.effect uuid found).outcome) w commands := by
  cases heffect : (c.effect uuid found).outcome with
  | error err =>
    by_cases herr : err = .noEffect
    · subst herr
      rw [Command.settle]
      refine (quiet_finalVersion c _).serves_bind (Command.lasting_holds Command.local_fresh) h
        fun version u k _ _ => ?_
      exact serves_conclude_ofFound htx rfl
    · have hsettle : c.settle (X := X) tx found (.error err) = giveBack tx.id err := by
        cases err <;> first | rfl | exact absurd rfl herr
      rw [hsettle]
      exact serves_giveBack tx.id err
  | ok change =>
    rw [Command.settle]
    exact serves_finalVersion_bind h heffect fun version u k hholds =>
      serves_conclude_change hholds htx hrefusal heffect

/-! ### The course of an attempt -/

theorem quiet_say (context : LogContext) (lines : List (LogLevel × String)) :
    Quiet (fun _ => True) (say context lines : Process X Unit) := by
  induction lines with
  | nil => trivial
  | cons line rest ih =>
    obtain ⟨level, message⟩ := line
    exact Quiet.step_bind rfl fun _ => ih

theorem quiet_drawUuid (c : Command) : Quiet (fun _ => True) (c.drawUuid : Process X Uuid) := by
  cases hd : c.details with
  | createCertificateAuthority name =>
    rw [Command.drawUuid, hd]
    exact Quiet.step rfl
  | _ =>
    rw [Command.drawUuid, hd]
    trivial

/-- What was seen of the authority before the lock, if anything was, still holds. -/
def Admitted (c : Command) (seen : Option (Option CertificateAuthority)) (w : World S)
    (commands : List Command) : Prop :=
  match seen with
  | some found => c.Holds found (fun w => c.stale w = none) w commands
  | none => c.group = .system

theorem lasting_admitted (c : Command) (seen : Option (Option CertificateAuthority)) :
    Lasting (S := S) (Admitted c seen) := by
  cases seen with
  | some found => exact Command.lasting_holds Command.local_fresh
  | none => exact fun _ _ _ _ _ h => h

/-- Looking at the authority under the lock, or going by what was seen before. -/
theorem serves_lookUp_bind {seen : Option (Option CertificateAuthority)}
    {f : Option CertificateAuthority → Process X (Except CommandError CommandStatus)}
    (h : Admitted c seen w commands)
    (hf : ∀ ⦃found u k⦄, c.Holds found (fun w => c.stale w = none) u k →
      Serves outside c (f found) u k) :
    Serves outside c (lookUp c.authority.id seen >>= f) w commands := by
  cases seen with
  | some found => exact hf h
  | none =>
    refine serves_step_bind (q := .read c.authority.id) rfl fun u k r v _ hstep => ?_
    obtain ⟨rfl, rfl⟩ := Prod.mk.inj (Option.some.inj hstep)
    -- commands of the system are never stale
    exact hf (Or.inr ⟨rfl, if_pos h⟩)

/-- Taking the lock, and what happens under it. -/
theorem serves_critical {seen : Option (Option CertificateAuthority)}
    (h : Admitted c seen w commands) (htx : tx.entries = OrdMap.empty)
    (hrefusal : c.refusal = none) : Serves outside c (c.critical tx seen) w commands := by
  have hlasting : Lasting (S := S) (Admitted c seen) := lasting_admitted c seen
  rw [Command.critical]
  refine (Quiet.step rfl).serves_bind hlasting h fun r u k _ hu => ?_
  cases r with
  | error e => exact serves_giveBack tx.id (.storage e)
  | ok _ =>
    refine (quiet_drawUuid c).serves_bind hlasting hu fun uuid v l _ hv => ?_
    refine serves_lookUp_bind hv fun found w₁ k₁ h₁ => ?_
    refine (quiet_say _ _).serves_bind (Command.lasting_holds Command.local_fresh) h₁
      fun _ w₂ k₂ _ h₂ => ?_
    exact serves_settle h₂ htx hrefusal

/-- **Finding out whether a command is stale**: if it is not, that holds as long as the authority
has not passed. -/
theorem serves_admission_bind
    {f : Option CommandError × Option (Option CertificateAuthority) →
      Process X (Except CommandError CommandStatus)}
    (hwrong : ∀ err seen u k, Serves outside c (f (some err, seen)) u k)
    (hf : ∀ seen ⦃u k⦄, Admitted c seen u k → Serves outside c (f (none, seen)) u k) :
    Serves outside c (c.admission >>= f) w commands := by
  rw [Command.admission]
  by_cases hgroup : c.group = .system
  · rw [if_pos hgroup]
    exact hf none hgroup
  · rw [if_neg hgroup, bind_assoc]
    refine serves_step_bind (q := .read c.authority.id) rfl fun u k r v _ hstep => ?_
    obtain ⟨rfl, rfl⟩ := Prod.mk.inj (Option.some.inj hstep)
    cases hget : u.store.get? c.authority.id with
    | none =>
      refine hf (some none) (Or.inr ⟨hget, ?_⟩)
      show c.stale u = none
      rw [Command.stale, if_neg hgroup, hget]
    | some ca =>
      have hstale : ∀ {v : World S}, v.store.get? c.authority.id = some ca →
          c.stale v = if ca.version ≤ c.authority.version then none
            else c.conflict ca (v.audit.since c.authority) := by
        intro v hv
        rw [Command.stale, if_neg hgroup, hv]
      rw [bind_assoc, Command.staleness]
      by_cases hnew : ca.version ≤ c.authority.version
      · rw [if_pos hnew]
        exact hf (some (some ca)) (Or.inr ⟨hget, (hstale hget).trans (if_pos hnew)⟩)
      · rw [if_neg hnew]
        refine serves_step_bind (q := .recordsSince c.authority) rfl
          fun v l r v' hmeanwhile hstep => ?_
        obtain ⟨rfl, rfl⟩ := Prod.mk.inj (Option.some.inj hstep)
        have hholds : c.Holds (some ca) (fun _ => True) v l :=
          Command.lasting_holds (fun _ _ _ h => h) hmeanwhile (Or.inr ⟨hget, trivial⟩)
        cases hconflict : c.conflict ca (v.audit.since c.authority) with
        | some err => exact hwrong err (some (some ca)) v l
        | none =>
          have hfresh : c.Holds (some ca) (fun w => c.stale w = none) v l :=
            hholds.mono fun hfound _ => by rw [hstale hfound, if_neg hnew, hconflict]
          exact hf (some (some ca)) hfresh

/-- **A whole course** serves its command. -/
theorem serves_course (htx : tx.entries = OrdMap.empty) :
    Serves outside c (c.course tx) w commands := by
  rw [Command.course]
  refine serves_admission_bind (fun err seen u k => ?_) fun seen u k h => ?_
  · exact serves_giveBack tx.id err
  · dsimp only
    rw [Option.none_or]
    cases hrefusal : c.refusal with
    | some err => exact serves_giveBack tx.id err
    | none => exact serves_critical h htx hrefusal

end Process

namespace Engine

open Process

variable {w : World S} {commands : List Command}

/-- An attempt is a course in a new transaction. -/
theorem attempt_serves (settings : Settings) (levels : Nat) (c : Command) :
    Serves outside c ((standard (X := X) settings).attempt (levels + 2) c) w commands := by
  rw [attempt_eq]
  refine serves_step_bind (q := .start) rfl fun u k tx v _ hstep => ?_
  obtain ⟨rfl, rfl⟩ := Prod.mk.inj (Option.some.inj hstep)
  have hcourse := attempt_standard (X := X) settings levels c (.new u.store.nextTx) rfl
  exact hcourse ▸ serves_course rfl

theorem quiet_givenUp (c : Command) :
    Quiet (fun _ => True) (givenUp c : Process X CommandError) := by
  refine Quiet.step_bind rfl fun found => ?_
  exact Quiet.step_bind rfl fun records => trivial

/-- **Any number of attempts** serve the command: they are repeated after an attempt without effect
only. -/
theorem attempts_serves (settings : Settings) (levels : Nat) (c : Command) (more retry : Nat) :
    Serves outside c ((standard (X := X) settings).attempts (levels + 2) c more retry)
      w commands := by
  induction more using Nat.strongRecOn generalizing retry w commands with
  | ind more ih =>
    rw [attempts]
    refine (attempt_serves settings levels c).bind (fun r u k hnone => ?_) fun status => rfl
    cases r with
    | ok status => exact hnone
    | error err =>
      dsimp only
      split
      · cases more with
        | zero =>
          refine Quiet.serves (Quiet.step_bind rfl fun _ => ?_)
          exact (quiet_givenUp c).bind fun _ _ => rfl
        | succ more =>
          refine serves_step_bind (q := .draw _) rfl fun _ _ _ _ _ _ => ?_
          refine serves_step_bind (q := .measure .retry) rfl fun _ _ _ _ _ _ => ?_
          refine serves_step_bind (q := .log _) rfl fun _ _ _ _ _ _ => ?_
          exact ih more (Nat.lt_succ_self more) (retry + 1)
      · exact Quiet.serves (Quiet.step_bind rfl fun _ => rfl)

/-- **The execution of a command serves it**, whatever others do meanwhile. -/
theorem execute_serves (settings : Settings) (levels : Nat) (c : Command) :
    Serves outside c ((standard (X := X) settings).execute (levels + 2) c) w commands := by
  have hcount : ∀ r : Except CommandError CommandStatus,
      Quiet (fun r' => r' = r) (step (.measure (.duration c.type)) >>= fun _ =>
        step (.measure (.outcome (outcomeOf r))) >>= fun _ => pure r : Process X _) :=
    fun r => Quiet.step_bind rfl fun _ => Quiet.step_bind rfl fun _ => rfl
  rw [execute]
  refine (attempts_serves settings levels c _ 0).bind (fun r u k hnone => ?_) fun status => ?_
  · exact Quiet.serves ((hcount r).mono fun _ h => h ▸ hnone)
  · exact hcount (.ok status)

end Engine

end RpkiAuthority
