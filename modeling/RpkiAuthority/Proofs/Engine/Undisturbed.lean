import Mathlib.Logic.Relation
import RpkiAuthority.Engine.Script
import RpkiAuthority.Proofs.Engine.Alone
import RpkiAuthority.Proofs.Storage.Written

/-!
# What a running command leaves alone

While a command runs, everything it does to the authorities happens to the copies of its
transaction, and everything it does to the audit log is put off. Of what commands share it changes
the lock table only, and there only the locks of its own transaction. This holds for arbitrary
handlers and listeners, at every level of nesting and wherever they fail
(`Engine.inTransaction_tolerant`): it is a property of the single questions that actions can ask.
What has to be known of a property for that is said once (`Running.Relation.Tolerant`,
`Engine.keeps_nesting`).

Handlers and listeners may also ask about things outside of the engine, and what is outside may
change the store behind the back of the command; that is how a commit comes to fail. So what is
committed is not simply the same afterwards: it is what the outside made of it
(`World.OnlyOutside`), and the same where the outside is **separate** from the store
(`Outside.Separate`). All that is asked of the outside in general is that it is **orderly**: it
has ended its own transactions when it answers.

A world is **reachable** (`World.Reachable`) if it comes about from the initial one by any steps of
any number of processes in any order, whoever takes them. The one thing asked of them is that locks
are taken for transactions that have begun. In reachable worlds the lock table is tidy.
-/

namespace RpkiAuthority

variable {X : Interface} {S : Type}

namespace Outside

/-- What is outside of the engine touches neither the store nor the audit log. -/
def Separate (outside : Outside X S) : Prop :=
  ∀ q w, (outside q w).2.store = w.store ∧ (outside q w).2.audit = w.audit

/-- **What is outside of the engine is orderly**: it may begin transactions of its own and commit
them, but when it answers it has ended them, and it does not touch the locks of others. -/
def Orderly (outside : Outside X S) : Prop :=
  ∀ q w, w.store.Tidy → (outside q w).2.store.locks = w.store.locks ∧
    w.store.nextTx ≤ (outside q w).2.store.nextTx

/-- A change behind the back of a transaction leaves no lock. -/
theorem interfereWith_locks {store : Store CertificateAuthority} (h : store.Tidy)
    (id : AggregateId) (removing : Bool) :
    (Script.interfereWith store id removing).2.locks = store.locks ∧
      (Script.interfereWith store id removing).2.nextTx = store.nextTx + 1 := by
  have hself : store.locks.releaseAll store.nextTx = store.locks :=
    LockTable.Tidy.releaseAll_eq_self h (Nat.le_refl _)
  rw [Script.interfereWith]
  dsimp only
  rw [Store.commit]
  split
  · next hcommit =>
    split at hcommit
    · exact absurd hcommit (by simp)
    · obtain ⟨-, rfl⟩ := Prod.mk.inj (Except.ok.inj hcommit)
      exact ⟨hself, rfl⟩
  · exact ⟨hself, rfl⟩

/-- What scripts talk to is orderly, although it changes authorities behind their backs. -/
theorem orderly_script : Orderly Script.answer := by
  intro q w h
  cases q with
  | note | reached | committed => exact ⟨rfl, Nat.le_refl _⟩
  | interfere id removing =>
    obtain ⟨hlocks, hnext⟩ := interfereWith_locks h id removing
    exact ⟨hlocks, hnext ▸ Nat.le_succ _⟩

end Outside

namespace SharedQuery

/-- Whether a step is one of those that a command takes inside of its transaction. -/
def IsInside (tx : TxId) : SharedQuery X → Prop
  | .acquire tx' _ _ => tx' = tx
  | .start | .commit _ _ _ | .release _ => False
  | _ => True

/-- Locks are taken for transactions that have begun. -/
def IsSound (w : World S) : SharedQuery X → Prop
  | .acquire tx _ _ => tx < w.store.nextTx
  | _ => True

end SharedQuery

namespace World

/-! ### Reachable worlds -/

/-- **The reachable worlds**: those that come about from an initial world by steps of processes, in
any order, by handing out numbers for authorities and by loading announcements. -/
inductive Reachable (outside : Outside X S) : World S → Prop
  | initial (filter : BgpFilter) (s : S) : Reachable outside (initial filter s)
  | step {w w' : World S} {q : SharedQuery X} {r : (sharedInterface X).Reply q}
      (h : Reachable outside w) (taken : step outside q w = some (r, w')) (sound : q.IsSound w) :
      Reachable outside w'
  | allocate {w : World S} (h : Reachable outside w) :
      Reachable outside { w with store := w.store.allocate.2 }
  | load {w : World S} (h : Reachable outside w) (context : LogContext) (entries : List RisEntry) :
      Reachable outside (w.loadAnnouncements context entries)

variable {outside : Outside X S} {w w' : World S}

/-! ### What is committed -/

/-- What is committed: the authorities and the audit log. -/
def committed (w : World S) : OrdMap AggregateId CertificateAuthority × AuditLog :=
  (w.store.aggregates, w.audit)

/-- Something outside of the engine turns one committed state into another. -/
def OutsideChange (outside : Outside X S)
    (a b : OrdMap AggregateId CertificateAuthority × AuditLog) : Prop :=
  ∃ q w, committed w = a ∧ committed (outside q w).2 = b

/-- **Nothing but the outside changed what is committed.** -/
def OnlyOutside (outside : Outside X S) (w w' : World S) : Prop :=
  Relation.ReflTransGen (OutsideChange outside) w.committed w'.committed

theorem OnlyOutside.of_eq (h : w'.committed = w.committed) : OnlyOutside outside w w' := by
  rw [OnlyOutside, h]

theorem OnlyOutside.trans {u : World S} (h : OnlyOutside outside w u)
    (h' : OnlyOutside outside u w') : OnlyOutside outside w w' :=
  Relation.ReflTransGen.trans h h'

/-- Where the outside is separate from the store, nothing changes what is committed. -/
theorem OnlyOutside.eq_of_separate (hout : outside.Separate) (h : OnlyOutside outside w w') :
    w'.committed = w.committed := by
  rw [OnlyOutside] at h
  -- the induction is on the changes in between, of which the worlds are only the ends
  generalize w.committed = a, w'.committed = b at h
  induction h with
  | refl => rfl
  | tail _ hstep ih =>
    obtain ⟨q, u, rfl, rfl⟩ := hstep
    rw [committed, (hout q u).1, (hout q u).2]
    exact ih

/-! ### Steps -/

/-- What a step does to the store and the audit log. -/
def StepEffect (outside : Outside X S) (w w' : World S) : SharedQuery X → Prop
  | .start => w' = { w with store := w.store.begin.2 }
  | .acquire tx id mode => w' = w ∨
      ∃ locks, w.store.locks.acquire id tx mode = .ok locks ∧
        w' = { w with store := { w.store with locks := locks } }
  | .commit tx deletions records => w' = w ∨ w.commit tx deletions records = .ok w'
  | .release tx => w' = { w with store := w.store.release tx }
  | .outside q => w' = (outside q w).2
  | _ => w'.store = w.store ∧ w'.audit = w.audit

/-- **What steps can do**: transactions begin and end, locks are taken, and changes are
committed; and the outside does what it does. All other steps leave the store and the audit log
as they are. -/
theorem stepEffect_of_step {q : SharedQuery X} {r : (sharedInterface X).Reply q}
    (taken : step outside q w = some (r, w')) : StepEffect outside w w' q := by
  cases q with
  | start | release =>
    obtain ⟨-, rfl⟩ := Prod.mk.inj (Option.some.inj taken)
    rfl
  | acquire tx id mode =>
    cases hl : w.store.locks.acquire id tx mode with
    | ok locks =>
      have hlock : w.store.lock id tx mode = .ok { w.store with locks := locks } := by
        rw [Store.lock, hl]
        rfl
      obtain ⟨-, rfl⟩ := Prod.mk.inj (Option.some.inj ((step_acquire_ok hlock).symm.trans taken))
      exact Or.inr ⟨locks, hl, rfl⟩
    | error e =>
      have hlock : w.store.lock id tx mode = .error e := by
        rw [Store.lock, hl]
        rfl
      obtain ⟨-, rfl⟩ := Prod.mk.inj (Option.some.inj ((step_acquire_error hlock).symm.trans taken))
      exact Or.inl rfl
  | commit tx deletions records =>
    cases hc : w.commit tx deletions records with
    | ok u =>
      obtain ⟨-, rfl⟩ := Prod.mk.inj (Option.some.inj ((step_commit_ok hc).symm.trans taken))
      exact Or.inr hc
    | error e =>
      obtain ⟨-, rfl⟩ := Prod.mk.inj (Option.some.inj ((step_commit_error hc).symm.trans taken))
      exact Or.inl rfl
  | measure m =>
    obtain ⟨-, rfl⟩ := Prod.mk.inj (Option.some.inj taken)
    cases m <;> exact ⟨rfl, rfl⟩
  | outside q => exact (Prod.mk.inj (Option.some.inj taken)).2.symm
  | read | recordsSince | log | draw | freshUuid | announcements =>
    obtain ⟨-, rfl⟩ := Prod.mk.inj (Option.some.inj taken)
    exact ⟨rfl, rfl⟩
  | stuck => exact absurd taken (Option.some_ne_none (r, w')).symm

/-- Committing writes authorities and records; numbers and locks stay as they are. -/
theorem commit_locks {tx : Transaction CertificateAuthority} {deletions : List AggregateId}
    {records : List PendingRecord} (h : w.commit tx deletions records = .ok w') :
    w'.store.locks = w.store.locks ∧ w'.store.nextTx = w.store.nextTx := by
  rw [commit, Store.commit] at h
  cases hc : w.store.conflict? tx with
  | some e =>
    rw [hc] at h
    exact absurd h (by simp)
  | none =>
    rw [hc] at h
    obtain rfl := Except.ok.inj h
    exact ⟨rfl, rfl⟩

/-- **The lock table of a reachable world is tidy.** -/
theorem Reachable.tidy (hout : outside.Orderly) (h : Reachable outside w) : w.store.Tidy := by
  induction h with
  | initial filter s => exact LockTable.tidy_empty 1
  | @step u u' q r _ taken sound ih =>
    have ih : u.store.locks.Tidy u.store.nextTx := ih
    have heffect := stepEffect_of_step taken
    show u'.store.locks.Tidy u'.store.nextTx
    cases q with
    | start =>
      obtain rfl : u' = _ := heffect
      exact ih.mono (Nat.le_succ _)
    | acquire tx id mode =>
      rcases heffect with rfl | ⟨locks, hlocks, rfl⟩
      · exact ih
      · exact ih.acquire sound hlocks
    | commit tx deletions records =>
      rcases heffect with rfl | hcommit
      · exact ih
      · rw [(commit_locks hcommit).1, (commit_locks hcommit).2]
        exact ih
    | release tx =>
      obtain rfl : u' = _ := heffect
      exact ih.releaseAll tx
    | outside q =>
      obtain rfl : u' = _ := heffect
      rw [(hout q u ih).1]
      exact ih.mono (hout q u ih).2
    | read | recordsSince | log | measure | draw | freshUuid | announcements | stuck =>
      rw [heffect.1]
      exact ih
  | allocate _ ih => exact ih
  | load _ _ _ ih => exact ih

/-! ### Steps inside of a transaction -/

/-- **A transaction leaves a world undisturbed**: nothing but the outside changed what is committed,
and without the locks of the transaction the lock table is the same as before. -/
structure Undisturbed (outside : Outside X S) (tx : TxId) (w w' : World S) : Prop where
  committed : OnlyOutside outside w w'
  reachable : Reachable outside w'
  nextTx : w.store.nextTx ≤ w'.store.nextTx
  locks : w'.store.locks.releaseAll tx = w.store.locks.releaseAll tx

theorem Undisturbed.refl (tx : TxId) (h : Reachable outside w) : Undisturbed outside tx w w :=
  ⟨.of_eq rfl, h, Nat.le_refl _, rfl⟩

theorem Undisturbed.trans {tx : TxId} {u : World S} (h : Undisturbed outside tx w u)
    (h' : Undisturbed outside tx u w') : Undisturbed outside tx w w' :=
  ⟨h.committed.trans h'.committed, h'.reachable, Nat.le_trans h.nextTx h'.nextTx,
    h'.locks.trans h.locks⟩

/-- **Every step inside of a transaction leaves the world undisturbed.** -/
theorem undisturbed_step (hout : outside.Orderly) {tx : TxId} {q : SharedQuery X}
    {r : (sharedInterface X).Reply q} (hq : q.IsInside tx)
    (taken : step outside q w = some (r, w')) (htx : tx < w.store.nextTx)
    (hw : Reachable outside w) : Undisturbed outside tx w w' := by
  have heffect := stepEffect_of_step taken
  -- only taking a lock asks for a transaction that has begun
  have hsound : q.IsSound w := by
    cases q with
    | acquire tx' id mode =>
      obtain rfl : tx' = tx := hq
      exact htx
    | _ => trivial
  have hw' : Reachable outside w' := hw.step taken hsound
  cases q with
  | start | commit | release => exact hq.elim
  | acquire tx' id mode =>
    obtain rfl : tx' = tx := hq
    rcases heffect with rfl | ⟨locks, hlocks, rfl⟩
    · exact .refl tx' hw
    · exact ⟨.of_eq rfl, hw', Nat.le_refl _, LockTable.releaseAll_acquire hlocks⟩
  | outside q =>
    obtain rfl : w' = _ := heffect
    obtain ⟨hlocks, hnext⟩ := hout q w (hw.tidy hout)
    exact ⟨.single ⟨q, w, rfl, rfl⟩, hw', hnext, by rw [hlocks]⟩
  | read | recordsSince | log | measure | draw | freshUuid | announcements | stuck =>
    obtain ⟨hs, ha⟩ := heffect
    refine ⟨.of_eq (by rw [committed, hs, ha, committed]), hw', ?_, by rw [hs]⟩
    exact Nat.le_of_eq (by rw [hs])

end World

/-! ### Running commands -/

/-- **A relation is quiet** if it holds over everything that happens between the questions that run
other commands, deliver events or note them: steps inside of the transaction, the first look at an
authority, changes of the transaction's copy of one, and marks for deletion. -/
structure Running.Relation.Quiet (outside : Outside X S) (R : Running.Relation X S) : Prop
    extends R.Sequential where
  step : ∀ ⦃c w q r w'⦄, SharedQuery.IsInside c.tx.id q → World.step outside q w = some (r, w') →
    R c w c w'
  look : ∀ ⦃c id⦄ w, c.tx.entries.find? id = none →
    R c w { c with tx := c.tx.setEntry id (Entry.ofFound (w.store.get? id)) } w
  change : ∀ ⦃c id entry entry'⦄ w, c.tx.entries.find? id = some entry → entry.LeadsTo entry' →
    R c w { c with tx := c.tx.setEntry id entry' } w
  mark : ∀ c w id, R c w { c with deletions := c.deletions ++ [id] } w

/-- A relation that has nothing to do with the world, the transaction and the marks is quiet. -/
theorem Running.Relation.Sequential.quiet {outside : Outside X S} {R : Running.Relation X S}
    (hR : R.Sequential)
    (h : ∀ c w w' tx deletions, R c w { c with tx := tx, deletions := deletions } w') :
    R.Quiet outside where
  refl := hR.refl
  trans := hR.trans
  step c w _ _ w' _ _ := h c w w' c.tx c.deletions
  look c _ w _ := h c w w _ c.deletions
  change c _ _ _ w _ _ := h c w w _ c.deletions
  mark c w _ := h c w w c.tx _

/-- **A relation is lenient** if it is quiet, does not depend on events and their audiences, and
holds over putting off the record of a command whose authority was looked at. -/
structure Running.Relation.Lenient (outside : Outside X S) (R : Running.Relation X S) : Prop
    extends R.Quiet outside where
  beside : ∀ c w scope frames, R c w { c with scope := scope, frames := frames } w
  record : ∀ ⦃c r⦄ w, (c.tx.entries.find? r.command.authority.id).isSome = true →
    R c w { c with records := c.records ++ [r] } w

/-- **A relation is tolerant** of all that happens inside of a transaction: of steps, and of changes
of the state that leave it the same transaction and take back nothing of what is put off until the
commit. -/
structure Running.Relation.Tolerant (outside : Outside X S) (R : Running.Relation X S) : Prop
    extends R.Sequential where
  step : ∀ ⦃c w q r w'⦄, SharedQuery.IsInside c.tx.id q → World.step outside q w = some (r, w') →
    R c w c w'
  set : ∀ ⦃c d⦄ w, d.tx.id = c.tx.id → c.records <+: d.records → c.deletions <+: d.deletions →
    R c w d w

theorem Running.Relation.Tolerant.lenient {outside : Outside X S} {R : Running.Relation X S}
    (hR : R.Tolerant outside) : R.Lenient outside where
  refl := hR.refl
  trans := hR.trans
  step := hR.step
  look _ _ w _ := hR.set w rfl List.prefix_rfl List.prefix_rfl
  change _ _ _ _ w _ _ := hR.set w rfl List.prefix_rfl List.prefix_rfl
  mark _ w _ := hR.set w rfl List.prefix_rfl (List.prefix_append _ _)
  beside _ w _ _ := hR.set w rfl List.prefix_rfl List.prefix_rfl
  record _ _ w _ := hR.set w rfl (List.prefix_append _ _) List.prefix_rfl

namespace ActionQuery

/-- Whether a question neither notes an event nor has anything else run. -/
def IsQuiet : ActionQuery X → Prop
  | .publish _ | .record _ | .execute _ => False
  | _ => True

end ActionQuery

namespace Engine

open Running World

variable {outside : Outside X S} {R : Running.Relation X S} {α : Type}

section Quiet

variable (hR : R.Quiet outside)

include hR

/-- A step inside of the transaction is kept, and so is what comes after it. -/
theorem quiet_step_bind {c : RunState X} {q : SharedQuery X}
    {f : (sharedInterface X).Reply q → Running X α} (hq : q.IsInside c.tx.id)
    (hf : ∀ r, KeepsAt outside R c (f r)) : KeepsAt outside R c (Running.step q >>= f) :=
  keepsAt_step_bind hR.toSequential (fun _ _ _ h => hR.step hq h) hf

theorem keeps_step {q : SharedQuery X} (hq : ∀ tx, q.IsInside tx) :
    Keeps outside R (Running.step q) :=
  fun c => keepsAt_step fun _ _ _ h => hR.step (hq c.tx.id) h

theorem keeps_lock (id : AggregateId) (mode : LockMode) :
    Keeps outside R (Running.lock (X := X) id mode) := by
  refine keeps_get_bind fun c => ?_
  refine quiet_step_bind hR ?_ fun r => ?_
  · exact rfl
  · cases r <;> exact keeps_pure hR.toSequential _ c

/-- **Looking at an authority is kept**, and what comes after it has to be kept only where the
transaction has the copy that was looked at. -/
theorem keeps_copyOf_bind {id : AggregateId} {f : Entry CertificateAuthority → Running X α}
    (hf : ∀ c entry, c.tx.entries.find? id = some entry → KeepsAt outside R c (f entry)) :
    Keeps outside R (Running.copyOf id >>= f) := by
  intro c w a c' w' h
  rw [StateT.run_bind] at h
  obtain ⟨⟨entry, d⟩, u, hcopy, h⟩ := runAlone_bind_eq_some.mp h
  rw [Running.copyOf, StateT.run_bind] at hcopy
  cases hfind : c.tx.entries.find? id with
  | some found =>
    simp only [StateT.run_get, pure_bind, hfind] at hcopy
    obtain ⟨hsame, rfl⟩ := Prod.mk.inj (Option.some.inj hcopy)
    obtain ⟨rfl, rfl⟩ := Prod.mk.inj hsame
    exact hf c found hfind h
  | none =>
    simp only [StateT.run_get, pure_bind, hfind] at hcopy
    obtain ⟨hsame, rfl⟩ := Prod.mk.inj (Option.some.inj hcopy)
    obtain ⟨rfl, rfl⟩ := Prod.mk.inj hsame
    exact hR.trans (hR.look w hfind) (hf _ _ (OrdMap.find?_insert_self _ _ _) h)

/-- Looking at an authority without changing its copy is kept. -/
theorem keeps_look {id : AggregateId} {f : Entry CertificateAuthority → Running X α}
    (hf : ∀ entry, Keeps outside R (f entry)) : Keeps outside R (Running.copyOf id >>= f) :=
  keeps_copyOf_bind hR fun c entry _ => hf entry c

/-- Changing a copy that was looked at is kept. -/
theorem keepsAt_setCopy {c : RunState X} {id : AggregateId}
    {entry entry' : Entry CertificateAuthority} (hfind : c.tx.entries.find? id = some entry)
    (hentry : entry.LeadsTo entry') :
    KeepsAt outside R c (Running.setCopy (X := X) id entry') :=
  keepsAt_set fun w => hR.change w hfind hentry

theorem keeps_onCopy (id : AggregateId)
    {action : Entry CertificateAuthority → Entry CertificateAuthority}
    (haction : ∀ entry, Entry.LeadsTo entry (action entry)) :
    Keeps outside R (Running.onCopy (X := X) id action) := by
  refine keeps_copyOf_bind hR fun c entry hfind => ?_
  cases entry.working with
  | none => exact keeps_pure hR.toSequential _ c
  | some ca =>
    exact keepsAt_bind hR.toSequential (keepsAt_setCopy hR hfind (haction entry))
      fun _ => keeps_pure hR.toSequential _

theorem keeps_checkVersion (c : Command) : Keeps outside R (checkVersion (X := X) c) := by
  rw [checkVersion]
  split
  · exact keeps_pure hR.toSequential _
  · refine keeps_look hR fun entry => ?_
    cases entry.working with
    | none => exact keeps_pure hR.toSequential _
    | some ca =>
      dsimp only
      split
      · exact keeps_pure hR.toSequential _
      · refine keeps_bind hR.toSequential (keeps_step hR fun _ => trivial) fun records => ?_
        split <;> exact keeps_pure hR.toSequential _

/-- **Asking for the version in the end is kept**, and what comes after it has to be kept only where
the transaction has looked at the authority. -/
theorem keeps_versionAfter_bind {c : Command} {f : Nat → Running X α}
    (hf : ∀ s version, (s.tx.entries.find? c.authority.id).isSome = true →
      KeepsAt outside R s (f version)) : Keeps outside R (versionAfter c >>= f) := by
  rw [versionAfter, bind_assoc]
  refine keeps_copyOf_bind hR fun s entry hfind => ?_
  have hlooked : (s.tx.entries.find? c.authority.id).isSome = true := by
    rw [hfind]
    exact Option.isSome_some
  cases entry.pendingVersion with
  | some version => exact hf s version hlooked
  | none =>
    rw [bind_assoc]
    refine quiet_step_bind hR ?_ fun found => ?_
    · trivial
    · cases found with
      | some ca => exact hf s ca.version hlooked
      | none => exact hf s c.authority.version hlooked

/-- The end of a command is kept if putting off its record is. -/
theorem keeps_wrapUp {c : Command}
    (hrecord : ∀ s w version events, (s.tx.entries.find? c.authority.id).isSome = true →
      R s w { s with records := s.records ++ [⟨c, version, events⟩] } w)
    (result : Except CommandError Unit) (events : List String) :
    Keeps outside R (wrapUp (X := X) c result events) := by
  cases result with
  | error err =>
    cases err with
    | noEffect => exact keeps_versionAfter_bind hR fun s _ _ => keeps_pure hR.toSequential _ s
    | _ => exact keeps_pure hR.toSequential _
  | ok _ =>
    refine keeps_versionAfter_bind hR fun s version hlooked =>
      keepsAt_bind hR.toSequential ?_ fun _ => keeps_pure hR.toSequential _
    split
    · exact keepsAt_set fun w => hrecord s w version events hlooked
    · exact keeps_pure hR.toSequential _ s

/-- **Answers to quiet questions are kept.** -/
theorem keeps_quiet_answer (e : Engine X) (inside : Nesting X) {q : ActionQuery X}
    (hq : q.IsQuiet) : Keeps outside R (e.answer inside q) := by
  have hpure : ∀ {γ : Type} (a : γ), Keeps outside R (pure a : Running X γ) :=
    keeps_pure hR.toSequential
  cases q with
  | publish | record | execute => exact hq.elim
  | lock id mode => exact keeps_lock hR id mode
  | lockAndIncrement id =>
    refine keeps_bind hR.toSequential (keeps_lock hR id .exclusive) fun r => ?_
    cases r with
    | error err => exact hpure _
    | ok _ =>
      refine keeps_copyOf_bind hR fun c entry hfind => ?_
      exact keepsAt_bind hR.toSequential (keepsAt_setCopy hR hfind entry.leadsTo_force)
        fun _ => hpure _
  | get id => exact keeps_onCopy hR id Entry.LeadsTo.refl
  | update id change =>
    exact keeps_bind hR.toSequential (keeps_onCopy hR id fun entry => entry.leadsTo_update change)
      fun r => hpure _
  | versionedId id =>
    refine keeps_look hR fun entry => ?_
    cases entry.pendingVersion <;> exact hpure _
  | insert ca =>
    refine keeps_copyOf_bind hR fun c entry hfind => ?_
    cases hw : entry.working with
    | some found => exact hpure _ c
    | none =>
      exact keepsAt_bind hR.toSequential (keepsAt_setCopy hR hfind (entry.leadsTo_insert ca))
        fun _ => hpure _
  | remove id => exact keeps_onCopy hR id Entry.leadsTo_remove
  | deleteRecords id => exact keeps_modify fun c w => hR.mark c w id
  | log level message =>
    refine keeps_get_bind fun c => keeps_step hR ?_ c
    exact fun _ => trivial
  | depth | logContext => exact keeps_get_bind fun c => hpure _ c
  | settings => exact hpure _
  | announcements | freshUuid | outside => exact keeps_step hR fun _ => trivial

end Quiet

theorem keeps_deliverTo (hR : R.Sequential) (e : Engine X) {inside : Nesting X}
    (hanswer : ∀ q, Keeps outside R (e.answer inside q)) (event : AuthorityEvent)
    (listeners : List (Listener X)) : Keeps outside R (e.deliverTo inside event listeners) := by
  induction listeners with
  | nil => exact keeps_pure hR _
  | cons listener rest ih =>
    refine keeps_bind hR (keeps_act hR e inside hanswer _) fun r => ?_
    cases r with
    | ok _ => exact ih
    | error err => exact keeps_pure hR _

section Lenient

variable (hR : R.Lenient outside)

include hR

theorem keeps_noteEvent (event : AuthorityEvent) :
    Keeps outside R (modify fun c => c.noteEvent event : Running X PUnit) := by
  refine keeps_modify fun c w => ?_
  rw [RunState.noteEvent]
  split
  · exact hR.beside c w c.scope _
  · exact hR.refl c w

section Inside

variable (e : Engine X) {inside : Nesting X} (hrun : ∀ c, Keeps outside R (inside.run c))
  (hdeliver : ∀ ev, Keeps outside R (inside.deliver ev))

include hrun hdeliver

/-- **Answers are kept**, if what is run inside of the command is. -/
theorem keeps_answer (q : ActionQuery X) : Keeps outside R (e.answer inside q) := by
  cases q with
  | publish event =>
    exact keeps_bind hR.toSequential (keeps_noteEvent hR event) fun _ => hdeliver event
  | record event => exact keeps_noteEvent hR event
  | execute command => exact hrun command
  | _ => exact keeps_quiet_answer hR.toQuiet e inside trivial

theorem keeps_handle (c : Command) : Keeps outside R (e.handle inside c) := by
  refine keeps_get_bind fun before => ?_
  dsimp only [Propagation.enter]
  -- whatever the listeners subscribe for, it is kept in the state alone
  generalize subscribeAll e.listeners _ = subscribed
  obtain ⟨subscriptions, scope⟩ := subscribed
  refine keepsAt_bind hR.toSequential (keepsAt_set fun w => hR.beside _ w _ _)
    fun _ => ?_
  refine keeps_bind hR.toSequential ?_ fun result => ?_
  · exact keeps_act hR.toSequential e inside (keeps_answer hR e hrun hdeliver) _
  · refine keeps_get_bind fun after => ?_
    exact keepsAt_bind hR.toSequential (keepsAt_set fun w => hR.beside _ w _ _)
      fun _ => keeps_pure hR.toSequential _

theorem keeps_run (c : Command) : Keeps outside R (e.run inside c) := by
  rw [run_eq]
  refine keeps_bind hR.toSequential (keeps_checkVersion hR.toQuiet c) fun checked => ?_
  cases checked with
  | error err => exact keeps_pure hR.toSequential _
  | ok _ =>
    refine keeps_bind hR.toSequential (keeps_handle hR e hrun hdeliver c) fun p => ?_
    exact keeps_wrapUp hR.toQuiet (fun _ w _ _ hlooked => hR.record w hlooked) p.1 p.2

end Inside

/-- **Running a command is kept**, with any handlers and listeners and any number of levels of
nesting. The induction is on the levels: what is run inside of a command has one less. -/
theorem keeps_nesting (e : Engine X) (levels : Nat) :
    (∀ c, Keeps outside R ((e.nesting levels).run c)) ∧
      ∀ ev, Keeps outside R ((e.nesting levels).deliver ev) := by
  induction levels with
  | zero => exact ⟨fun _ => keeps_stuck R, fun _ => keeps_stuck R⟩
  | succ levels ih =>
    refine ⟨fun c => keeps_run hR e ih.1 ih.2 c, fun ev => ?_⟩
    exact keeps_get_bind fun c =>
      keeps_deliverTo hR.toSequential e (keeps_answer hR e ih.1 ih.2) ev _ c

end Lenient

/-! ### Keeping to a transaction -/

/-- The transaction stays the same one, and it leaves the world undisturbed. -/
def InTransaction (outside : Outside X S) : Running.Relation X S := fun c w c' w' =>
  c'.tx.id = c.tx.id ∧
    (c.tx.id < w.store.nextTx → Reachable outside w → Undisturbed outside c.tx.id w w')

/-- **Running a command keeps to its transaction**: every step does, and the state of the command is
nothing that others share. -/
theorem inTransaction_tolerant (hout : outside.Orderly) :
    (InTransaction outside).Tolerant outside where
  refl _ _ := ⟨rfl, fun _ hw => .refl _ hw⟩
  trans c₁ w₁ c₂ w₂ c₃ w₃ h h' := by
    refine ⟨h'.1.trans h.1, fun htx hw => ?_⟩
    have hfirst := h.2 htx hw
    -- the second part is about the same transaction under another name
    rw [← h.1] at htx hfirst ⊢
    exact hfirst.trans (h'.2 (Nat.lt_of_lt_of_le htx hfirst.nextTx) hfirst.reachable)
  step _ _ _ _ _ hq h := ⟨rfl, undisturbed_step hout hq h⟩
  set _ _ _ htx _ _ := ⟨htx, fun _ hw => .refl _ hw⟩

end Engine

end RpkiAuthority
