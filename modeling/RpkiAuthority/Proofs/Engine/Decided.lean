import RpkiAuthority.Proofs.Engine.Verdict

/-!
# What is decided on a command

What becomes of a command that is executed alone is decided by what is there when it is sent. If
others hold a lock on the authority, and nothing else is wrong with the command, then it waits in
every attempt and is given up in the end (`Command.waits`, `Command.abandoned`). Otherwise there is
one attempt, and what comes of it is the ruling (`Command.decision`).

`Engine.execute_decided` says that executing a command is computing the decision: what its sender is
told, the store with its locks and counters, and the audit log. Where no lock is held at all, the
decision is the verdict (`Engine.execute_eq_verdict`). So a run of commands from a world without
locks is a fold of rulings, in which nothing is left to chance but the numbers drawn for new
authorities.
-/

namespace RpkiAuthority

variable {X : Interface} {S : Type}

namespace Command

/-- **A command waits** for a lock that others hold, unless something else is wrong with it. -/
def waits (c : Command) (w : World S) : Bool :=
  ((c.stale w).or c.refusal).isNone && w.store.locks.contains c.authority.id

/-- What the sender of a command is told that has waited for too long. -/
def abandoned (c : Command) (w : World S) : CommandError :=
  .concurrentModification c.authority.id
    (((w.store.get? c.authority.id).map CertificateAuthority.version).getD c.authority.version)
    c.authority.version (w.audit.since c.authority)

/-- What a single attempt comes to. -/
def trial (c : Command) (w : World S) : Except CommandError Change :=
  if c.waits w then .error (.storage (.lockTimeout c.authority.id)) else c.ruling w

/-- **What is decided on a command.** -/
def decision (c : Command) (w : World S) : Except CommandError Change :=
  if c.waits w then .error (c.abandoned w) else c.ruling w

/-- The number of transactions that a command begins. -/
def transactions (settings : Settings) (c : Command) (w : World S) : Nat :=
  if c.waits w then max settings.commands.maxAttempts 1 else 1

variable {c : Command} {u v w : World S}

/-- Where no lock is held, nothing is waited for. -/
theorem waits_eq_false (hfree : w.store.locks = OrdMap.empty) : c.waits w = false := by
  rw [waits, hfree]
  exact Bool.and_false _

theorem waits_of_same (h : w.SameCommitted u) (hlocks : u.store.locks = w.store.locks) :
    c.waits u = c.waits w := by
  rw [waits, waits, stale_of_same h, hlocks]

theorem abandoned_of_same (h : w.SameCommitted u) : c.abandoned u = c.abandoned w := by
  rw [abandoned, abandoned, h.get?, h.audit]

/-- **What a command leaves** that was decided on in some number of transactions: the store with
what is committed, and the audit log. All locks are as they were. -/
structure Decided (c : Command) (w : World S) (ruling : Except CommandError Change) (begun : Nat)
    (u : World S) : Prop where
  store : u.store = { w.store with
    aggregates := (c.leaves w ruling).1
    nextTx := w.store.nextTx + begun }
  audit : u.audit = (c.leaves w ruling).2
  now : u.now = w.now

theorem Decided.then_same {ruling : Except CommandError Change} {begun : Nat}
    (h : c.Decided w ruling begun u) (hsame : u.SameStore v) : c.Decided w ruling begun v :=
  ⟨hsame.store.trans h.store, hsame.audit.trans h.audit, hsame.now.trans h.now⟩

theorem Decided.of_same {ruling : Except CommandError Change} {begun : Nat} (hsame : w.SameStore u)
    (h : c.Decided u ruling begun v) : c.Decided w ruling begun v := by
  obtain ⟨hstore, haudit, hnow⟩ := h
  rw [leaves_of_same hsame.sameCommitted] at hstore haudit
  rw [hsame.store] at hstore
  exact ⟨hstore, haudit, hnow.trans hsame.now⟩

/-- Errors leave nothing, so what is decided afterwards is decided from the start. -/
theorem Decided.trans {err err' : CommandError} {begun more : Nat}
    (h : c.Decided w (.error err) begun u) (h' : c.Decided u (.error err') more v) :
    c.Decided w (.error err') (begun + more) v := by
  have hstore : u.store = { w.store with nextTx := w.store.nextTx + begun } := h.store
  have hstore' : v.store = { u.store with nextTx := u.store.nextTx + more } := h'.store
  refine ⟨?_, h'.audit.trans h.audit, h'.now.trans h.now⟩
  rw [hstore', hstore, Nat.add_assoc]
  rfl

/-- Errors leave what is committed and the locks as they are. -/
theorem Decided.sameCommitted {err : CommandError} {begun : Nat}
    (h : c.Decided w (.error err) begun u) : w.SameCommitted u :=
  ⟨by rw [h.store]; rfl, h.audit, h.now⟩

theorem Decided.locks {ruling : Except CommandError Change} {begun : Nat}
    (h : c.Decided w ruling begun u) : u.store.locks = w.store.locks := by
  rw [h.store]

theorem Decided.nextTx {ruling : Except CommandError Change} {begun : Nat}
    (h : c.Decided w ruling begun u) : u.store.nextTx = w.store.nextTx + begun := by
  rw [h.store]

theorem Decided.tidy {ruling : Except CommandError Change} {begun : Nat}
    (h : c.Decided w ruling begun u) (htidy : w.store.Tidy) : u.store.Tidy := by
  rw [h.store]
  exact htidy.mono (Nat.le_add_right _ _)

end Command

open World

variable {outside : Outside X S} {c : Command} {w : World S} {tx : Transaction CertificateAuthority}

/-! ### From the effect to the end -/

/-- A process that goes on from a later world ends with what a ruling on a world says, and with the
locks of its transaction released. -/
def Process.Concludes (outside : Outside X S) (c : Command) (tx : TxId)
    (ruling : Except CommandError Change) (w later : World S)
    (p : Process X (Except CommandError CommandStatus)) : Prop :=
  ∃ u, runAlone outside p later = some (c.told (w.store.get? c.authority.id) ruling, u) ∧
    u.store = { w.store.release tx with aggregates := (c.leaves w ruling).1 } ∧
    u.audit = (c.leaves w ruling).2 ∧ u.now = w.now

namespace Command

/-- An error proper ends a transaction without a commit. -/
theorem concludes_giveBack {err : CommandError} (h : err ≠ .noEffect) :
    Process.Concludes outside c tx.id (.error err) w w (Process.giveBack tx.id err) := by
  refine ⟨{ w with store := w.store.release tx.id }, ?_, rfl, rfl, rfl⟩
  rw [told_error h]
  exact runAlone_giveBack outside tx.id err w

/-- **Settling an effect** is committing it, or giving back the transaction. -/
theorem concludes_settle (htx : tx.entries = OrdMap.empty) {uuid : Uuid}
    {ruling : Except CommandError Change}
    (heffect : (c.effect uuid (w.store.get? c.authority.id)).outcome = ruling) :
    Process.Concludes outside c tx.id ruling w w
      (c.settle tx (w.store.get? c.authority.id) ruling) := by
  cases ruling with
  | ok change => exact runAlone_settle_ok outside htx heffect
  | error err =>
    by_cases herr : err = .noEffect
    · subst herr
      cases hfound : w.store.get? c.authority.id with
      | none =>
        rw [hfound] at heffect
        exact absurd heffect (effect_none_ne_noEffect c uuid)
      | some ca =>
        obtain ⟨u, hu, hend⟩ := runAlone_settle_noEffect outside htx hfound
        refine ⟨u, ?_, hend⟩
        rw [hfound]
        exact hu
    · have hsettle : c.settle (X := X) tx (w.store.get? c.authority.id) (.error err) =
          Process.giveBack tx.id err := by
        cases err <;> first | rfl | exact absurd rfl herr
      rw [hsettle]
      exact concludes_giveBack herr

/-- What came before may be left out if it changed no more of the store than locks of the
transaction. -/
theorem concludes_of_same {later : World S} {tx : TxId} {ruling : Except CommandError Change}
    {p : Process X (Except CommandError CommandStatus)}
    (hstore : later.store.release tx = w.store.release tx) (haudit : later.audit = w.audit)
    (hnow : later.now = w.now) (hp : Process.Concludes outside c tx ruling later later p) :
    Process.Concludes outside c tx ruling w later p := by
  have haggregates : (later.store.release tx).aggregates = (w.store.release tx).aggregates := by
    rw [hstore]
  have hsame : w.SameCommitted later := ⟨haggregates, haudit, hnow⟩
  obtain ⟨u, hu, hend, hlog, htime⟩ := hp
  rw [hsame.get?] at hu
  rw [leaves_of_same hsame] at hend hlog
  exact ⟨u, hu, hstore ▸ hend, hlog, htime.trans hnow⟩

/-- Under a lock that nobody else holds. -/
theorem concludes_critical (htx : tx.entries = OrdMap.empty)
    (hfree : w.store.locks.find? c.authority.id = none) :
    Process.Concludes outside c tx.id
      (c.effect (c.drawn w) (w.store.get? c.authority.id)).outcome w w
      (c.critical tx (c.seenIn w)) := by
  obtain ⟨locks, hlock⟩ : ∃ locks,
      w.store.locks.acquire c.authority.id tx.id .exclusive = .ok locks :=
    ⟨_, LockTable.acquire_of_find?_eq_none hfree tx.id .exclusive⟩
  have hacquired : w.store.lock c.authority.id tx.id .exclusive =
      .ok { w.store with locks := locks } := by
    rw [Store.lock, hlock]
    rfl
  have hreleased : Store.release { w.store with locks := locks } tx.id = w.store.release tx.id :=
    congrArg (fun locks => { w.store with locks := locks }) (LockTable.releaseAll_acquire hlock)
  obtain ⟨w₂, hdraw, hstore₂⟩ := runAlone_drawUuid outside
    { w with store := { w.store with locks := locks } } c
  obtain ⟨w₃, hsay, hstore₃⟩ := runAlone_say outside (Engine.contextOf c)
    (c.effect (c.drawn w) (w.store.get? c.authority.id)).lines w₂
  have hsame₂ : w.SameCommitted w₂ :=
    ⟨by rw [hstore₂.store], hstore₂.audit, hstore₂.now⟩
  have hsame₃ : w.SameCommitted w₃ := hsame₂.trans hstore₃.sameCommitted
  have hsettle : Process.Concludes outside c tx.id
      (c.effect (c.drawn w) (w₃.store.get? c.authority.id)).outcome w w₃ _ :=
    concludes_of_same (by rw [hstore₃.store, hstore₂.store]; exact hreleased) hsame₃.audit
      hsame₃.now (concludes_settle htx rfl)
  rw [hsame₃.get?] at hsettle
  obtain ⟨u, hu, hend⟩ := hsettle
  refine ⟨u, ?_, hend⟩
  rw [critical, runAlone_step_bind (q := .acquire tx.id c.authority.id .exclusive)
    (step_acquire_ok hacquired)]
  dsimp only
  rw [runAlone_bind, hdraw, Option.bind_some, runAlone_bind, ← seenIn_of_same hsame₂ c,
    runAlone_lookUp, Option.bind_some, hsame₂.get?, runAlone_bind]
  exact (congrArg (fun r => Option.bind r _) hsay).trans hu

/-- Where others hold a lock, the transaction is given back. -/
theorem concludes_timeout (htidy : w.store.locks.Tidy tx.id)
    (hheld : w.store.locks.contains c.authority.id = true)
    (seen : Option (Option CertificateAuthority)) :
    Process.Concludes outside c tx.id (.error (.storage (.lockTimeout c.authority.id))) w w
      (c.critical tx seen) := by
  have htimeout : w.store.lock c.authority.id tx.id .exclusive =
      .error (.lockTimeout c.authority.id) := by
    rw [Store.lock, htidy.acquire_eq_error (Nat.le_refl _) hheld]
    rfl
  have hcritical : runAlone outside (c.critical tx seen) w =
      runAlone outside (Process.giveBack tx.id (.storage (.lockTimeout c.authority.id))) w := by
    rw [critical, runAlone_step_bind (q := .acquire tx.id c.authority.id .exclusive)
      (step_acquire_error htimeout)]
  rw [Process.Concludes, hcritical]
  exact concludes_giveBack (by simp)

/-- **A whole course** concludes with the trial. -/
theorem concludes_course (htx : tx.entries = OrdMap.empty) (htidy : w.store.locks.Tidy tx.id) :
    Process.Concludes outside c tx.id (c.trial w) w w (c.course tx) := by
  rw [Process.Concludes, course, runAlone_bind, runAlone_admission, Option.bind_some, trial, waits,
    ruling]
  dsimp only
  cases hwrong : (c.stale w).or c.refusal with
  | none =>
    rw [Option.isNone_none, Bool.true_and]
    by_cases hheld : w.store.locks.contains c.authority.id = true
    · rw [if_pos hheld]
      exact concludes_timeout htidy hheld _
    · rw [if_neg hheld]
      exact concludes_critical htx
        (OrdMap.contains_eq_false_iff.mp (Bool.eq_false_iff.mpr hheld))
  | some err =>
    refine concludes_giveBack ?_
    rcases Option.or_eq_some_iff.mp hwrong with hstale | ⟨-, hrefusal⟩
    · obtain ⟨-, ca, -, -, -, rfl⟩ := stale_eq_some_iff.mp hstale
      simp
    · exact refusal_ne_noEffect hrefusal

end Command

namespace Engine

/-- **An attempt comes to the trial**, and leaves the locks as they were. -/
theorem attempt_decided (outside : Outside X S) (settings : Settings) (levels : Nat) (c : Command)
    {w : World S} (htidy : w.store.Tidy) :
    ∃ u, runAlone outside ((standard settings).attempt (levels + 2) c) w =
        some (c.told (w.store.get? c.authority.id) (c.trial w), u) ∧
      c.Decided w (c.trial w) 1 u := by
  obtain ⟨u, hu, hstore, haudit, hnow⟩ : Process.Concludes outside c w.store.nextTx (c.trial w)
      { w with store := w.store.begin.2 } { w with store := w.store.begin.2 }
      (c.course (.new w.store.nextTx)) := Command.concludes_course rfl htidy
  have hreleased : w.store.locks.releaseAll w.store.nextTx = w.store.locks :=
    htidy.releaseAll_eq_self (Nat.le_refl _)
  refine ⟨u, ?_, hstore.trans ?_, haudit, hnow⟩
  · rw [attempt_eq]
    refine (runAlone_step_bind (q := .start) rfl _).trans ?_
    exact (congrArg (fun p => runAlone outside p _)
      (attempt_standard settings levels c (.new w.store.nextTx) rfl)).trans hu
  · exact congrArg (fun locks : LockTable => { w.store with
      aggregates := (c.leaves w (c.trial w)).1
      locks := locks
      nextTx := w.store.nextTx + 1 }) hreleased

/-- Giving up is looking at the authority and at its records. -/
theorem givenUp_decided (c : Command) (w : World S) :
    ∃ u, runAlone outside (givenUp c >>= fun err =>
          (pure (.error err) : Process X (Except CommandError CommandStatus))) w =
        some (.error (c.abandoned w), u) ∧ c.Decided w (.error (c.abandoned w)) 0 u := by
  refine ⟨w, ?_, rfl, rfl, rfl⟩
  rw [givenUp, bind_assoc]
  refine (runAlone_step_bind (q := .read c.authority.id) rfl _).trans ?_
  rw [bind_assoc]
  refine (runAlone_step_bind (q := .recordsSince c.authority) rfl _).trans ?_
  rw [Command.abandoned]
  cases w.store.get? c.authority.id <;> rfl

/-- A step that changes nothing may come before what is decided. -/
theorem decided_step {q : SharedQuery X} {reply : (sharedInterface X).Reply q} {w u : World S}
    {f : (sharedInterface X).Reply q → Process X (Except CommandError CommandStatus)}
    {err : CommandError} {begun : Nat} (taken : step outside q w = some (reply, u))
    (hsame : w.SameStore u)
    (h : ∃ v, runAlone outside (f reply) u = some (.error err, v) ∧
      c.Decided u (.error err) begun v) :
    ∃ v, runAlone outside (Process.step q >>= f) w = some (.error err, v) ∧
      c.Decided w (.error err) begun v := by
  obtain ⟨v, hv, hdecided⟩ := h
  exact ⟨v, (runAlone_step_bind taken f).trans hv, .of_same hsame hdecided⟩

/-- Something that changes nothing may have been decided before. -/
theorem decided_after {w u : World S} {p : Process X (Except CommandError CommandStatus)}
    {err err' : CommandError} {begun more : Nat} (h : c.Decided w (.error err) begun u)
    (hp : ∃ v, runAlone outside p u = some (.error err', v) ∧ c.Decided u (.error err') more v) :
    ∃ v, runAlone outside p u = some (.error err', v) ∧
      c.Decided w (.error err') (begun + more) v := by
  obtain ⟨v, hv, hdecided⟩ := hp
  exact ⟨v, hv, h.trans hdecided⟩

/-- **A command that waits** is attempted as often as it may be, and is given up. -/
theorem attempts_abandoned (outside : Outside X S) (settings : Settings) (levels : Nat)
    (c : Command) (more retry : Nat) {w : World S} (htidy : w.store.Tidy)
    (hwaits : c.waits w = true) :
    ∃ u, runAlone outside ((standard settings).attempts (levels + 2) c more retry) w =
        some (.error (c.abandoned w), u) ∧ c.Decided w (.error (c.abandoned w)) (more + 1) u := by
  have htransient : (CommandError.storage (.lockTimeout c.authority.id)).isTransient = true := rfl
  induction more generalizing w retry with
  | zero =>
    obtain ⟨u, hu, hdecided⟩ := attempt_decided outside settings levels c htidy
    rw [Command.trial, if_pos hwaits] at hu hdecided
    rw [Command.told_error (by simp)] at hu
    rw [attempts, runAlone_bind, hu, Option.bind_some, Nat.add_comm 0 1,
      ← Command.abandoned_of_same hdecided.sameCommitted]
    refine decided_after hdecided ?_
    dsimp only
    rw [if_pos htransient]
    refine decided_step (q := .log _) rfl ⟨rfl, rfl, rfl⟩ ?_
    exact givenUp_decided c _
  | succ more ih =>
    obtain ⟨u, hu, hdecided⟩ := attempt_decided outside settings levels c htidy
    rw [Command.trial, if_pos hwaits] at hu hdecided
    rw [Command.told_error (by simp)] at hu
    rw [attempts, runAlone_bind, hu, Option.bind_some, Nat.add_comm (more + 1) 1,
      ← Command.abandoned_of_same hdecided.sameCommitted]
    refine decided_after hdecided ?_
    dsimp only
    rw [if_pos htransient]
    refine decided_step (q := .draw _) rfl ⟨rfl, rfl, rfl⟩ ?_
    refine decided_step (q := .measure .retry) rfl ⟨rfl, rfl, rfl⟩ ?_
    refine decided_step (q := .log _) rfl ⟨rfl, rfl, rfl⟩ ?_
    -- nothing has changed, so the command waits again
    exact ih (retry + 1) (hdecided.tidy htidy)
      ((Command.waits_of_same hdecided.sameCommitted hdecided.locks).trans hwaits)

/-- **Executing a command is computing the decision** on it. -/
theorem execute_decided (outside : Outside X S) (settings : Settings) (levels : Nat) (c : Command)
    {w : World S} (htidy : w.store.Tidy) :
    ∃ u, World.execute outside (standard settings) (levels + 2) c w =
        some (c.told (w.store.get? c.authority.id) (c.decision w), u) ∧
      c.Decided w (c.decision w) (c.transactions settings w) u := by
  have hattempts : ∃ v, runAlone outside ((standard settings).attempts (levels + 2) c
      (max (standard (X := X) settings).settings.commands.maxAttempts 1 - 1) 0) w =
        some (c.told (w.store.get? c.authority.id) (c.decision w), v) ∧
      c.Decided w (c.decision w) (c.transactions settings w) v := by
    by_cases hwaits : c.waits w = true
    · have hcount : max settings.commands.maxAttempts 1 - 1 + 1 =
          max settings.commands.maxAttempts 1 := by omega
      rw [Command.decision, if_pos hwaits, Command.transactions, if_pos hwaits, ← hcount,
        Command.told_error (by simp [Command.abandoned])]
      exact attempts_abandoned outside settings levels c _ 0 htidy hwaits
    · obtain ⟨u, hu, hdecided⟩ := attempt_decided outside settings levels c htidy
      rw [Command.trial, if_neg hwaits] at hu hdecided
      rw [Command.decision, if_neg hwaits, Command.transactions, if_neg hwaits, attempts,
        runAlone_bind, hu, Option.bind_some]
      -- whatever the ruling, no second attempt is made
      cases hverdict : c.told (w.store.get? c.authority.id) (c.ruling w) with
      | ok status => exact ⟨u, rfl, hdecided⟩
      | error err =>
        have hfinal : ¬err.isTransient = true := by
          rw [Command.verdict_isTransient hverdict]
          exact Bool.false_ne_true
        dsimp only
        rw [if_neg hfinal]
        exact ⟨_, runAlone_step_bind (q := .log (failureLine c err)) rfl _,
          hdecided.then_same ⟨rfl, rfl, rfl⟩⟩
  obtain ⟨v, hv, hdecided⟩ := hattempts
  generalize c.told (w.store.get? c.authority.id) (c.decision w) = r at hv ⊢
  refine ⟨(v.measure (.duration c.type)).measure (.outcome (outcomeOf r)), ?_,
    hdecided.then_same ⟨rfl, rfl, rfl⟩⟩
  rw [World.execute, execute]
  refine (runAlone_bind _ _ w).trans ?_
  rw [hv, Option.bind_some]
  refine (runAlone_step_bind (q := .measure (.duration c.type)) rfl _).trans ?_
  exact runAlone_step_bind (q := .measure (.outcome (outcomeOf r))) rfl _

/-- **Where no lock is held, the decision is the verdict**, and no lock is left. -/
theorem execute_eq_verdict (outside : Outside X S) (settings : Settings) (levels : Nat)
    (c : Command) {w : World S} (hfree : w.store.locks = OrdMap.empty) :
    ∃ u, World.execute outside (standard settings) (levels + 2) c w = some (c.verdict w, u) ∧
      u.committed = c.leaves w (c.ruling w) ∧ u.now = w.now ∧
      u.store.locks = OrdMap.empty := by
  have htidy : w.store.Tidy := by
    rw [Store.Tidy, hfree]
    exact LockTable.tidy_empty _
  obtain ⟨u, hu, hdecided⟩ := execute_decided outside settings levels c htidy
  have hdecision : c.decision w = c.ruling w := by
    rw [Command.decision, Command.waits_eq_false hfree]
    rfl
  rw [hdecision] at hu hdecided
  refine ⟨u, hu, Prod.ext ?_ hdecided.audit, hdecided.now, hdecided.locks.trans hfree⟩
  rw [committed, hdecided.store]

end Engine

end RpkiAuthority
