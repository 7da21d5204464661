import RpkiAuthority.Proofs.Concurrent.Holding
import RpkiAuthority.Proofs.Engine.Settled

/-!
# Processes that keep to their locks

A process is **disciplined** (`Process.Disciplined`) if it takes and releases locks for its own open
transaction only, and writes only what that transaction holds, whatever others do meanwhile that
spares the transaction. What the process of a command of the system has besides is that it never
fails but for want of a lock: its commits succeed.

The execution of any command is disciplined (`Engine.execute_disciplined`). For a command of the
system all depends on one order of events. The lock comes before the first look at the authority, so
that what was found is still there when the commit compares versions. A user's command looks at the
authority before it has the lock, and its commit may fail.
-/

namespace RpkiAuthority

variable {X : Interface} {S : Type} {α β : Type} {outside : Outside X S}

/-! ### Transactions -/

/-- Others spare the transaction that is open, if one is. -/
def World.SparesOpen (opened : Option TxId) (w w' : World S) : Prop :=
  ∀ n ∈ opened, World.Spares n w w'

theorem World.SparesOpen.refl (opened : Option TxId) (w : World S) : SparesOpen opened w w :=
  fun n _ => .refl n w

theorem World.SparesOpen.trans {opened : Option TxId} {u w w' : World S}
    (h : SparesOpen opened u w) (h' : SparesOpen opened w w') : SparesOpen opened u w' :=
  fun n hn => (h n hn).trans (h' n hn)

namespace SharedQuery

/-- The transaction of a process that is open after a step. -/
def opened (w : World S) (before : Option TxId) : SharedQuery X → Option TxId
  | .start => some w.store.nextTx
  | .release _ => none
  | _ => before

/-- **What is expected of a step** of the process of a command, and of the answer to it. -/
def Proper (c : Command) (w : World S) (opened : Option TxId) :
    (q : SharedQuery X) → (sharedInterface X).Reply q → Prop
  | .acquire tx _ _, r => opened = some tx ∧ ∀ e, r = .error e → e = .lockTimeout c.authority.id
  | .commit tx _ _, r => opened = some tx.id ∧ w.WritesHeld tx ∧ (c.group = .system → r = .ok ())
  | .release tx, _ => opened = some tx
  | .outside _, _ => False
  | _, _ => True

variable {c : Command} {w w' : World S} {before : Option TxId} {q : SharedQuery X}
  {r : (sharedInterface X).Reply q} {n : TxId}

/-- A proper step has regard for the transactions of others. -/
theorem Proper.regards (h : q.Proper c w before r) (hn : n ∉ before) : w.Regards n q := by
  have hne : ∀ {tx}, before = some tx → tx ≠ n := by
    rintro tx rfl rfl
    exact hn rfl
  cases q with
  | acquire tx id mode => exact hne h.1
  | commit tx deletions records => exact ⟨hne h.1, h.2.1⟩
  | release tx => exact hne h
  | outside q => exact h.elim
  | _ => trivial

/-- The open transaction was open before or is new. -/
theorem mem_opened (h : n ∈ q.opened w before) : n ∈ before ∨ n = w.store.nextTx := by
  cases q with
  | start => exact Or.inr (Option.some.inj h).symm
  | release tx => exact absurd h.symm (Option.some_ne_none n)
  | _ => exact Or.inl h

/-- The open transaction has begun. -/
theorem Proper.lt_nextTx (h : q.Proper c w before r) (hbegun : ∀ n ∈ before, n < w.store.nextTx)
    (taken : World.step outside q w = some (r, w')) (hn : n ∈ q.opened w before) :
    n < w'.store.nextTx := by
  have hle : w.store.nextTx ≤ w'.store.nextTx :=
    World.nextTx_le_of_step (by rintro q' rfl; exact h.elim) taken
  cases q with
  | start =>
    obtain ⟨-, rfl⟩ := Prod.mk.inj (Option.some.inj taken)
    obtain rfl := Option.some.inj hn
    exact Nat.lt_succ_self _
  | release tx => exact absurd hn.symm (Option.some_ne_none n)
  | _ => exact Nat.lt_of_lt_of_le (hbegun n hn) hle

end SharedQuery

namespace Process

/-! ### Discipline -/

/-- **A process is disciplined** from a world on, in which a transaction of it may be open: all its
steps are proper, as long as others spare the transaction. -/
def Disciplined (outside : Outside X S) (c : Command) (post : Option TxId → Prop) :
    Process X α → Option TxId → World S → Prop
  | .done _, opened, _ => post opened
  | .ask q next, opened, w => ∀ u r v, World.SparesOpen opened w u →
      World.step outside q u = some (r, v) →
      SharedQuery.Proper c u opened q r ∧
        Disciplined outside c post (next r) (SharedQuery.opened u opened q) v

/-- A process has to do with neither transactions nor locks. -/
def Uninvolved : Process X α → Prop
  | .done _ => True
  | .ask q next => SharedQuery.IsQuiet q ∧ ∀ r, Uninvolved (next r)

section Rules

variable {c : Command} {post : Option TxId → Prop} {opened : Option TxId} {w w' : World S}

/-- **Whatever others do** that spares the open transaction, the process goes on in discipline. -/
theorem Disciplined.spared {p : Process X α} (h : Disciplined outside c post p opened w)
    (hspared : World.SparesOpen opened w w') : Disciplined outside c post p opened w' := by
  cases p with
  | done a => exact h
  | ask q next => exact fun u r v hu => h u r v (hspared.trans hu)

/-- A proper step comes first. -/
theorem disciplined_step_bind {q : SharedQuery X} {f : (sharedInterface X).Reply q → Process X α}
    (h : ∀ ⦃u r v⦄, World.SparesOpen opened w u → World.step outside q u = some (r, v) →
      q.Proper c u opened r ∧ Disciplined outside c post (f r) (q.opened u opened) v) :
    Disciplined outside c post (Process.step q >>= f) opened w :=
  fun _ _ _ hspared htaken => h hspared htaken

/-- **One process after another.** -/
theorem Disciplined.bind {post' : Option TxId → Prop} {p : Process X α} {f : α → Process X β}
    (hp : Disciplined outside c post p opened w)
    (hf : ∀ a opened w, post opened → Disciplined outside c post' (f a) opened w) :
    Disciplined outside c post' (p >>= f) opened w := by
  induction p generalizing opened w with
  | done a => exact hf a opened w hp
  | ask q next ih =>
    intro u r v hspared htaken
    obtain ⟨hproper, hrest⟩ := hp u r v hspared htaken
    exact ⟨hproper, ih r hrest⟩

/-- A quiet step is proper and leaves the store alone. -/
theorem proper_of_isQuiet {q : SharedQuery X} {r : (sharedInterface X).Reply q} (hq : q.IsQuiet)
    (htaken : World.step outside q w = some (r, w')) :
    q.Proper c w opened r ∧ q.opened w opened = opened ∧ w'.store = w.store := by
  have heffect := World.stepEffect_of_step htaken
  cases q with
  | start | acquire | commit | release | outside => exact hq.elim
  | _ => exact ⟨trivial, rfl, heffect.1⟩

/-- **A process that is not involved comes first**, while a fact about the open transaction
lasts. -/
theorem Uninvolved.disciplined_bind {K : World S → Prop} {p : Process X α} {f : α → Process X β}
    (hp : Uninvolved p) (hK : ∀ ⦃u v⦄, World.SparesOpen opened u v → K u → K v) (h : K w)
    (hf : ∀ a ⦃u⦄, K u → Disciplined outside c post (f a) opened u) :
    Disciplined outside c post (p >>= f) opened w := by
  induction p generalizing w with
  | done a => exact hf a h
  | ask q next ih =>
    intro u r v hspared htaken
    obtain ⟨hproper, hopened, hstore⟩ : q.Proper c u opened r ∧ q.opened u opened = opened ∧
        v.store = u.store :=
      proper_of_isQuiet hp.1 htaken
    have hv : World.SparesOpen opened u v :=
      fun n _ => .of_same (congrArg Store.locks hstore) (congrArg Store.aggregates hstore)
    rw [hopened]
    exact ⟨hproper, ih r (hp.2 r) (hK (hspared.trans hv) h)⟩

/-- A process that is not involved is disciplined. -/
theorem Uninvolved.disciplined {p : Process X α} (hp : Uninvolved p) (h : post opened) :
    Disciplined outside c post p opened w := by
  have hrest : Disciplined outside c post (p >>= fun a => .done a) opened w :=
    hp.disciplined_bind (K := fun _ => True) (fun _ _ _ _ => trivial) trivial fun _ _ _ => h
  rwa [show p >>= (fun a => .done a) = p from Dialogue.bind_done p] at hrest

end Rules

/-! ### Parts of a course -/

section Parts

theorem uninvolved_step {q : SharedQuery X} (hq : q.IsQuiet) :
    Uninvolved (Process.step q : Process X _) :=
  ⟨hq, fun _ => trivial⟩

theorem Uninvolved.bind {p : Process X α} {f : α → Process X β} (hp : Uninvolved p)
    (hf : ∀ a, Uninvolved (f a)) : Uninvolved (p >>= f) := by
  induction p with
  | done a => exact hf a
  | ask q next ih => exact ⟨hp.1, fun r => ih r (hp.2 r)⟩

theorem Uninvolved.step_bind {q : SharedQuery X} {f : (sharedInterface X).Reply q → Process X α}
    (hq : q.IsQuiet) (hf : ∀ r, Uninvolved (f r)) : Uninvolved (Process.step q >>= f) :=
  ⟨hq, hf⟩

theorem uninvolved_say (context : LogContext) (lines : List (LogLevel × String)) :
    Uninvolved (say context lines : Process X Unit) := by
  induction lines with
  | nil => trivial
  | cons line rest ih =>
    obtain ⟨level, message⟩ := line
    exact Uninvolved.step_bind trivial fun _ => ih

theorem uninvolved_drawUuid (c : Command) : Uninvolved (c.drawUuid : Process X Uuid) := by
  cases hd : c.details with
  | createCertificateAuthority name =>
    rw [Command.drawUuid, hd]
    exact uninvolved_step trivial
  | _ =>
    rw [Command.drawUuid, hd]
    trivial

theorem uninvolved_finalVersion (c : Command) (entry : Entry CertificateAuthority) :
    Uninvolved (c.finalVersion entry : Process X Nat) := by
  rw [Command.finalVersion]
  cases entry.pendingVersion with
  | some version => trivial
  | none =>
    refine Uninvolved.step_bind (q := .read c.authority.id) trivial fun found => ?_
    cases found <;> trivial

theorem uninvolved_admission (c : Command) : Uninvolved (c.admission : Process X _) := by
  rw [Command.admission]
  split
  · trivial
  · refine Uninvolved.step_bind (q := .read c.authority.id) trivial fun found => ?_
    refine Uninvolved.bind ?_ fun _ => trivial
    cases found with
    | none => trivial
    | some ca =>
      rw [Command.staleness]
      split
      · trivial
      · exact Uninvolved.step_bind (q := .recordsSince c.authority) trivial fun _ => trivial

theorem uninvolved_givenUp (c : Command) :
    Uninvolved (Engine.givenUp c : Process X CommandError) := by
  refine Uninvolved.step_bind (q := .read c.authority.id) trivial fun found => ?_
  exact Uninvolved.step_bind (q := .recordsSince c.authority) trivial fun _ => trivial

end Parts

end Process

/-! ### The course of an attempt -/

namespace World

variable {w w' : World S}

theorem error_of_step_acquire {tx : TxId} {id : AggregateId} {mode : LockMode} {e : StorageError}
    (taken : step outside (.acquire tx id mode : SharedQuery X) w = some (.error e, w')) :
    e = .lockTimeout id := by
  cases hacquire : w.store.locks.acquire? id tx mode with
  | some locks =>
    have hlock : w.store.lock id tx mode = .ok { w.store with locks := locks } := by
      rw [Store.lock, LockTable.acquire, hacquire]
      rfl
    exact absurd (Prod.mk.inj (Option.some.inj ((step_acquire_ok hlock).symm.trans taken))).1
      (by simp)
  | none =>
    have hlock : w.store.lock id tx mode = .error (.lockTimeout id) := by
      rw [Store.lock, LockTable.acquire, hacquire]
      rfl
    exact (Except.error.inj
      (Prod.mk.inj (Option.some.inj ((step_acquire_error hlock).symm.trans taken))).1).symm

theorem heldBy_of_step_acquire {tx : TxId} {id : AggregateId}
    (taken : step outside (.acquire tx id .exclusive : SharedQuery X) w = some (.ok (), w')) :
    w'.HeldBy tx id := by
  cases hacquire : w.store.locks.acquire id tx .exclusive with
  | ok locks =>
    have hlock : w.store.lock id tx .exclusive = .ok { w.store with locks := locks } := by
      rw [Store.lock, hacquire]
      rfl
    obtain ⟨-, rfl⟩ := Prod.mk.inj (Option.some.inj ((step_acquire_ok hlock).symm.trans taken))
    exact (LockTable.holds_acquire hacquire).mpr (Or.inr ⟨rfl, rfl, trivial⟩)
  | error e =>
    have hlock : w.store.lock id tx .exclusive = .error e := by
      rw [Store.lock, hacquire]
      rfl
    exact absurd (Prod.mk.inj (Option.some.inj ((step_acquire_error hlock).symm.trans taken))).1
      (by simp)

end World

namespace Process

variable {c : Command} {w : World S} {tx : Transaction CertificateAuthority}
  {found : Option CertificateAuthority} {seen : Option (Option CertificateAuthority)}

/-- All locks are released at the end. -/
def Closed (opened : Option TxId) : Prop := opened = none

theorem disciplined_giveBack (n : TxId) (err : CommandError) :
    Disciplined outside c Closed (giveBack n err : Process X _) (some n) w :=
  fun _ _ _ _ _ => ⟨rfl, rfl⟩

/-- **What is known under the lock**: the transaction holds the authority, and for a command of the
system it is as it was found. -/
def UnderLock (c : Command) (n : TxId) (found : Option CertificateAuthority) (w : World S) : Prop :=
  w.HeldBy n c.authority.id ∧ (c.group = .system → w.store.get? c.authority.id = found)

theorem UnderLock.spared {n : TxId} ⦃u v : World S⦄ (hspared : World.SparesOpen (some n) u v)
    (h : UnderLock c n found u) : UnderLock c n found v := by
  obtain ⟨hheld, hget⟩ := hspared n rfl c.authority.id h.1
  exact ⟨hheld, fun hsystem => hget.trans (h.2 hsystem)⟩

/-- **The commit under the lock** writes what is held, and that of a command of the system finds the
authority as it was. -/
theorem disciplined_conclude (h : UnderLock c tx.id found w) (htx : tx.entries = OrdMap.empty)
    {entry : Entry CertificateAuthority}
    (hbase : entry.base = found.map CertificateAuthority.version) (deletions : List AggregateId)
    (records : List PendingRecord) (status : CommandStatus) :
    Disciplined outside c Closed
      (conclude (tx.setEntry c.authority.id entry) deletions records status : Process X _)
      (some tx.id) w := by
  rw [conclude]
  refine disciplined_step_bind fun u r v hspared htaken => ?_
  have hu : UnderLock c tx.id found u := h.spared hspared
  have hwrites : u.WritesHeld (tx.setEntry c.authority.id entry) := by
    intro id e hfind _
    rw [Transaction.setEntry, htx] at hfind
    rcases OrdMap.find?_insert_eq_some_iff.mp hfind with ⟨rfl, -⟩ | ⟨-, hnone⟩
    · exact hu.1
    · exact absurd hnone.symm (Option.some_ne_none e)
  have hsucceeds : c.group = .system → r = .ok () := by
    intro hsystem
    have hcommit := World.commit_setEntry (w := u) htx
      (hbase.trans (congrArg _ (hu.2 hsystem).symm)) deletions records
    exact (Prod.mk.inj (Option.some.inj ((World.step_commit_ok hcommit).symm.trans htaken))).1.symm
  refine ⟨⟨rfl, hwrites, hsucceeds⟩, ?_⟩
  -- the locks are released, whether the commit succeeds or not
  refine disciplined_step_bind (q := .release tx.id) fun _ _ _ _ _ => ⟨rfl, ?_⟩
  cases r <;> rfl

/-- Settling an effect under the lock. -/
theorem disciplined_settle (h : UnderLock c tx.id found w) (htx : tx.entries = OrdMap.empty)
    (outcome : Except CommandError Change) :
    Disciplined outside c Closed (c.settle tx found outcome : Process X _) (some tx.id) w := by
  cases outcome with
  | error err =>
    by_cases herr : err = .noEffect
    · subst herr
      rw [Command.settle]
      exact (uninvolved_finalVersion c _).disciplined_bind UnderLock.spared h fun version u hu =>
        disciplined_conclude hu htx rfl [] [] _
    · have hsettle : c.settle (X := X) tx found (.error err) = giveBack tx.id err := by
        cases err <;> first | rfl | exact absurd rfl herr
      rw [hsettle]
      exact disciplined_giveBack tx.id err
  | ok change =>
    rw [Command.settle]
    exact (uninvolved_finalVersion c _).disciplined_bind UnderLock.spared h fun version u hu =>
      disciplined_conclude hu htx rfl _ _ _

/-- **Taking the lock, and what happens under it.** A command of the system has not looked at the
authority before. -/
theorem disciplined_critical (htx : tx.entries = OrdMap.empty)
    (hseen : c.group = .system → seen = none) :
    Disciplined outside c Closed (c.critical tx seen : Process X _) (some tx.id) w := by
  rw [Command.critical]
  refine disciplined_step_bind fun u r v _ htaken => ?_
  cases r with
  | error e =>
    refine ⟨⟨rfl, fun e' he => ?_⟩, disciplined_giveBack tx.id (.storage e)⟩
    obtain rfl := Except.error.inj he
    exact World.error_of_step_acquire htaken
  | ok _ =>
    refine ⟨⟨rfl, fun e' he => absurd he (by simp)⟩, ?_⟩
    have hheld : v.HeldBy tx.id c.authority.id := World.heldBy_of_step_acquire htaken
    have hlasts : ∀ ⦃u v : World S⦄, World.SparesOpen (some tx.id) u v →
        u.HeldBy tx.id c.authority.id → v.HeldBy tx.id c.authority.id :=
      fun _ _ hspared hu => (hspared tx.id rfl c.authority.id hu).1
    refine (uninvolved_drawUuid c).disciplined_bind hlasts hheld fun uuid v hv => ?_
    have hrest : ∀ found ⦃v : World S⦄, UnderLock c tx.id found v →
        Disciplined outside c Closed
          (say (Engine.contextOf c) (c.effect uuid found).lines >>= fun _ =>
            c.settle tx found (c.effect uuid found).outcome : Process X _) (some tx.id) v :=
      fun found v h => (uninvolved_say _ _).disciplined_bind UnderLock.spared h fun _ u hu =>
        disciplined_settle hu htx _
    cases seen with
    | some found => exact hrest found ⟨hv, fun hsystem => absurd (hseen hsystem) (by simp)⟩
    | none =>
      refine disciplined_step_bind (q := .read c.authority.id) fun u' r' v' hspared hread => ?_
      obtain ⟨rfl, rfl⟩ := Prod.mk.inj (Option.some.inj hread)
      exact ⟨trivial, hrest _ ⟨hlasts hspared hv, fun _ => rfl⟩⟩

/-- **A whole course** is disciplined. -/
theorem disciplined_course (htx : tx.entries = OrdMap.empty) :
    Disciplined outside c Closed (c.course tx : Process X _) (some tx.id) w := by
  rw [Command.course]
  by_cases hgroup : c.group = .system
  · rw [Command.admission, if_pos hgroup, pure_bind]
    dsimp only
    split
    · exact disciplined_giveBack tx.id _
    · exact disciplined_critical htx fun _ => rfl
  · refine (uninvolved_admission c).disciplined_bind (K := fun _ => True) (fun _ _ _ _ => trivial)
      trivial fun p u _ => ?_
    split
    · exact disciplined_giveBack tx.id _
    · exact disciplined_critical htx fun hsystem => absurd hsystem hgroup

end Process

namespace Engine

open Process

variable {c : Command} {w : World S}

/-- An attempt is a course in a new transaction. -/
theorem attempt_disciplined (settings : Settings) (levels : Nat) (c : Command)
    (opened : Option TxId) :
    Disciplined outside c Closed ((standard (X := X) settings).attempt (levels + 2) c) opened
      w := by
  rw [attempt_eq]
  refine disciplined_step_bind (q := .start) fun u tx v _ htaken => ?_
  obtain ⟨rfl, rfl⟩ := Prod.mk.inj (Option.some.inj htaken)
  refine ⟨trivial, ?_⟩
  have hcourse := attempt_standard (X := X) settings levels c (.new u.store.nextTx) rfl
  exact hcourse ▸ disciplined_course rfl

/-- **Any number of attempts** are disciplined. -/
theorem attempts_disciplined (settings : Settings) (levels : Nat) (c : Command)
    (more retry : Nat) (opened : Option TxId) :
    Disciplined outside c Closed ((standard (X := X) settings).attempts (levels + 2) c more retry)
      opened w := by
  induction more using Nat.strongRecOn generalizing retry opened w with
  | ind more ih =>
    rw [attempts]
    refine (attempt_disciplined settings levels c opened).bind fun r opened' u hclosed => ?_
    cases r with
    | ok status => exact hclosed
    | error err =>
      dsimp only
      split
      · cases more with
        | zero =>
          refine Uninvolved.disciplined (Uninvolved.step_bind trivial fun _ => ?_) hclosed
          exact (uninvolved_givenUp c).bind fun _ => trivial
        | succ more =>
          have hpause : Uninvolved (Process.step (.draw settings.commands.retryJitter) >>=
              fun draw => Process.step (.measure .retry) >>= fun _ =>
                Process.step (.log ⟨.info, contextOf c, retryMessage c err (retry + 1)
                  (settings.commands.backoff retry draw)⟩) : Process X Unit) :=
            Uninvolved.step_bind trivial fun _ => Uninvolved.step_bind trivial fun _ =>
              uninvolved_step trivial
          exact hpause.disciplined_bind (K := fun _ => True) (fun _ _ _ _ => trivial) trivial
            fun _ _ _ => ih more (Nat.lt_succ_self more) (retry + 1) opened'
      · exact Uninvolved.disciplined (Uninvolved.step_bind trivial fun _ => trivial) hclosed

/-- **The execution of a command is disciplined**, whatever others do meanwhile. -/
theorem execute_disciplined (settings : Settings) (levels : Nat) (c : Command)
    (opened : Option TxId) :
    Disciplined outside c Closed ((standard (X := X) settings).execute (levels + 2) c) opened
      w := by
  rw [execute]
  refine (attempts_disciplined settings levels c _ 0 opened).bind fun r opened' u hclosed => ?_
  refine Uninvolved.disciplined ?_ hclosed
  exact Uninvolved.step_bind trivial fun _ => Uninvolved.step_bind trivial fun _ => trivial

end Engine

end RpkiAuthority
