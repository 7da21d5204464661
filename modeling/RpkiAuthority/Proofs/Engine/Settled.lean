import RpkiAuthority.Proofs.Engine.Undisturbed

/-!
# What an execution leaves behind

An attempt begins a transaction, runs the command in it and ends it, with a commit or without.
However it ends, its locks are gone: the lock table is the one it found (`World.Settled`). If it
ends with an error then it committed nothing, and the authorities and the audit log are what the
outside made of those it found (`World.OnlyOutside`). Both facts go from one attempt to any number
of them, and from there to the execution of a command with any handlers and listeners
(`Engine.execute_settled`).
-/

namespace RpkiAuthority

variable {X : Interface} {S : Type}

namespace SharedQuery

/-- Whether a step has to do with neither transactions nor locks, nor with the outside. -/
def IsQuiet : SharedQuery X → Prop
  | .start | .acquire _ _ _ | .commit _ _ _ | .release _ | .outside _ => False
  | _ => True

end SharedQuery

namespace World

/-- **A world is settled** with respect to an earlier one: it is reachable as that one was, and
nobody holds another lock than before. -/
structure Settled (outside : Outside X S) (w w' : World S) : Prop where
  reachable : Reachable outside w'
  locks : w'.store.locks = w.store.locks
  nextTx : w.store.nextTx ≤ w'.store.nextTx

variable {outside : Outside X S} {u w w' : World S}

theorem Settled.refl (h : Reachable outside w) : Settled outside w w := ⟨h, rfl, Nat.le_refl _⟩

theorem Settled.trans (h : Settled outside u w) (h' : Settled outside w w') :
    Settled outside u w' :=
  ⟨h'.reachable, h'.locks.trans h.locks, Nat.le_trans h.nextTx h'.nextTx⟩

/-- A world is settled and what is committed is the outside's doing. -/
structure Unchanged (outside : Outside X S) (w w' : World S) : Prop
    extends Settled outside w w' where
  committed : OnlyOutside outside w w'

theorem Unchanged.refl (h : Reachable outside w) : Unchanged outside w w :=
  ⟨.refl h, .of_eq rfl⟩

theorem Unchanged.trans (h : Unchanged outside u w) (h' : Unchanged outside w w') :
    Unchanged outside u w' :=
  ⟨h.toSettled.trans h'.toSettled, h.committed.trans h'.committed⟩

/-- A quiet step changes nothing of this. -/
theorem unchanged_step (hw : Reachable outside w) {q : SharedQuery X} (hq : q.IsQuiet)
    {r : (sharedInterface X).Reply q} (taken : step outside q w = some (r, w')) :
    Unchanged outside w w' := by
  have heffect := stepEffect_of_step taken
  cases q with
  | start | acquire | commit | release | outside => exact hq.elim
  | read | recordsSince | log | measure | draw | freshUuid | announcements | stuck =>
    obtain ⟨hs, ha⟩ := heffect
    refine ⟨⟨hw.step taken trivial, by rw [hs], ?_⟩, ?_⟩
    · exact Nat.le_of_eq (by rw [hs])
    · exact .of_eq (by rw [committed, hs, ha, committed])

/-- The same for a step that other steps follow. -/
theorem unchanged_bind (hw : Reachable outside w) {α : Type} {q : SharedQuery X} (hq : q.IsQuiet)
    {f : (sharedInterface X).Reply q → Process X α} {a : α}
    (h : runAlone outside (Process.step q >>= f) w = some (a, w')) :
    ∃ r u, Unchanged outside w u ∧ runAlone outside (f r) u = some (a, w') := by
  obtain ⟨r, u, h1, h2⟩ := runAlone_bind_eq_some.mp h
  rw [runAlone_step] at h1
  exact ⟨r, u, unchanged_step hw hq h1, h2⟩

/-! ### Ends of a transaction -/

/-- **A transaction that ends gives back what it took**: after its locks are released the lock table
is the one it found, if it left everything else alone. -/
theorem settled_release (hout : outside.Orderly) (hw : Reachable outside w)
    (hu : Reachable outside u) (hnext : w.store.nextTx < u.store.nextTx)
    (hlocks : u.store.locks.releaseAll w.store.nextTx = w.store.locks.releaseAll w.store.nextTx) :
    Settled outside w { u with store := u.store.release w.store.nextTx } where
  reachable := hu.step (q := .release w.store.nextTx) rfl trivial
  locks := hlocks.trans ((hw.tidy hout).releaseAll_eq_self (Nat.le_refl _))
  nextTx := Nat.le_of_lt hnext

end World

namespace Engine

open World

variable {outside : Outside X S} {w w' : World S}

/-- What is left behind by something that ends with a result or an error. -/
def Leaves (outside : Outside X S) (w : World S) (r : Except CommandError CommandStatus)
    (w' : World S) : Prop :=
  Settled outside w w' ∧ ∀ err, r = .error err → OnlyOutside outside w w'

theorem Leaves.of_unchanged {r : Except CommandError CommandStatus}
    (h : Unchanged outside w w') : Leaves outside w r w' :=
  ⟨h.toSettled, fun _ _ => h.committed⟩

theorem Leaves.trans {u : World S} {r : Except CommandError CommandStatus}
    (h : Unchanged outside w u) (h' : Leaves outside u r w') : Leaves outside w r w' :=
  ⟨h.toSettled.trans h'.1, fun err herr => h.committed.trans (h'.2 err herr)⟩

/-- Writing about dropped subscriptions changes nothing. -/
theorem logDropped_unchanged (hw : Reachable outside w) {context : LogContext} {counts : List Nat}
    {a : Unit} (h : runAlone outside (logDropped (X := X) context counts) w = some (a, w')) :
    Unchanged outside w w' := by
  induction counts generalizing w with
  | nil =>
    obtain ⟨-, rfl⟩ := Prod.mk.inj (Option.some.inj h)
    exact .refl hw
  | cons count rest ih =>
    obtain ⟨_, u, hu, h⟩ := unchanged_bind hw (by trivial) h
    exact hu.trans (ih hu.reachable h)

/-- **What an attempt leaves behind**: no lock, and after an error nothing else either. -/
theorem attempt_leaves (hout : outside.Orderly) (e : Engine X) (levels : Nat) (c : Command)
    {r : Except CommandError CommandStatus} (hw : Reachable outside w)
    (h : runAlone outside (e.attempt levels c) w = some (r, w')) : Leaves outside w r w' := by
  obtain ⟨tx, w₁, hstart, h⟩ := runAlone_bind_eq_some.mp h
  rw [runAlone_step] at hstart
  have hw₁ : Reachable outside w₁ := hw.step hstart trivial
  obtain ⟨rfl, rfl⟩ := Prod.mk.inj (Option.some.inj hstart)
  -- the command runs in the transaction
  obtain ⟨⟨result, state⟩, w₂, hrun, h⟩ := runAlone_bind_eq_some.mp h
  obtain ⟨hid, hrun⟩ := (keeps_nesting (inTransaction_tolerant hout).lenient e levels).1 c _ hrun
  have hid : state.tx.id = w.store.nextTx := hid
  have hrun : Undisturbed outside w.store.nextTx _ w₂ := hrun (Nat.lt_succ_self _) hw₁
  -- what is left of its scope is noted in the log
  obtain ⟨_, w₃, hlog, h⟩ := runAlone_bind_eq_some.mp h
  have hw₃ := logDropped_unchanged hrun.reachable hlog
  have hcommitted : OnlyOutside outside w w₃ := hrun.committed.trans hw₃.committed
  have hlocks₃ : w₃.store.locks.releaseAll w.store.nextTx =
      w.store.locks.releaseAll w.store.nextTx := by
    rw [hw₃.locks]
    exact hrun.locks
  have hnext₃ : w.store.nextTx < w₃.store.nextTx := Nat.le_trans hrun.nextTx hw₃.nextTx
  -- with or without a commit, the last step gives the locks back
  have hrelease : ∀ {u}, Reachable outside u → u.store.locks = w₃.store.locks →
      u.store.nextTx = w₃.store.nextTx →
      Settled outside w { u with store := u.store.release state.tx.id } := by
    intro u hu hlocks htx
    rw [hid]
    exact settled_release hout hw hu (htx ▸ hnext₃) (hlocks ▸ hlocks₃)
  cases result with
  | error err =>
    obtain ⟨_, w₄, hrel, h⟩ := runAlone_bind_eq_some.mp h
    obtain ⟨-, rfl⟩ := Prod.mk.inj (Option.some.inj hrel)
    obtain ⟨rfl, rfl⟩ := Prod.mk.inj (Option.some.inj h)
    exact ⟨hrelease hw₃.reachable rfl rfl, fun _ _ => hcommitted⟩
  | ok status =>
    obtain ⟨committed, w₄, hcommit, h⟩ := runAlone_bind_eq_some.mp h
    rw [runAlone_step] at hcommit
    have hw₄ : Reachable outside w₄ := hw₃.reachable.step hcommit trivial
    obtain ⟨_, w₅, hrel, h⟩ := runAlone_bind_eq_some.mp h
    obtain ⟨-, rfl⟩ := Prod.mk.inj (Option.some.inj hrel)
    cases hc : w₃.commit state.tx state.deletions state.records with
    | ok u =>
      obtain ⟨rfl, rfl⟩ := Prod.mk.inj (Option.some.inj ((step_commit_ok hc).symm.trans hcommit))
      obtain ⟨rfl, rfl⟩ := Prod.mk.inj (Option.some.inj h)
      obtain ⟨hl, hn⟩ := commit_locks hc
      exact ⟨hrelease hw₄ hl hn, fun _ herr => absurd herr (by simp)⟩
    | error err =>
      obtain ⟨rfl, rfl⟩ :=
        Prod.mk.inj (Option.some.inj ((step_commit_error hc).symm.trans hcommit))
      obtain ⟨rfl, rfl⟩ := Prod.mk.inj (Option.some.inj h)
      exact ⟨hrelease hw₃.reachable rfl rfl, fun _ _ => hcommitted⟩

/-- Looking up the changes of others changes nothing. -/
theorem givenUp_unchanged (hw : Reachable outside w) {c : Command} {err : CommandError}
    (h : runAlone outside (givenUp (X := X) c) w = some (err, w')) : Unchanged outside w w' := by
  obtain ⟨found, u, hu, h⟩ := unchanged_bind hw (by trivial) h
  obtain ⟨records, v, hv, h⟩ := unchanged_bind hu.reachable (by trivial) h
  obtain ⟨-, rfl⟩ := Prod.mk.inj (Option.some.inj h)
  exact hu.trans hv

/-- **Attempts are repeated after errors only**, and an attempt that ends with an error leaves
nothing behind. So either there is an error in the end and nothing is left, or the last attempt is
as good as the only one. -/
theorem attempts_cases (hout : outside.Orderly) (e : Engine X) (levels : Nat) (c : Command)
    (more : Nat) {retry : Nat} {r : Except CommandError CommandStatus} (hw : Reachable outside w)
    (h : runAlone outside (e.attempts levels c more retry) w = some (r, w')) :
    (∃ err, r = .error err) ∧ Unchanged outside w w' ∨
      ∃ status u, r = .ok status ∧ Unchanged outside w u ∧
        runAlone outside (e.attempt levels c) u = some (.ok status, w') := by
  induction more using Nat.strongRecOn generalizing w retry with
  | ind more ih =>
    rw [attempts] at h
    obtain ⟨result, u, hattempt, h⟩ := runAlone_bind_eq_some.mp h
    cases result with
    | ok status =>
      obtain ⟨rfl, rfl⟩ := Prod.mk.inj (Option.some.inj h)
      exact .inr ⟨status, w, rfl, .refl hw, hattempt⟩
    | error err =>
      have hleaves := attempt_leaves hout e levels c hw hattempt
      have hu : Unchanged outside w u := ⟨hleaves.1, hleaves.2 err rfl⟩
      dsimp only at h
      split at h
      · cases more with
        | zero =>
          obtain ⟨_, u₁, hu₁, h⟩ := unchanged_bind hu.reachable (by trivial) h
          obtain ⟨err', u₂, hgiven, h⟩ := runAlone_bind_eq_some.mp h
          have hu₂ := givenUp_unchanged hu₁.reachable hgiven
          obtain ⟨rfl, rfl⟩ := Prod.mk.inj (Option.some.inj h)
          exact .inl ⟨⟨err', rfl⟩, (hu.trans hu₁).trans hu₂⟩
        | succ more =>
          obtain ⟨_, u₁, hu₁, h⟩ := unchanged_bind hu.reachable (by trivial) h
          obtain ⟨_, u₂, hu₂, h⟩ := unchanged_bind hu₁.reachable (by trivial) h
          obtain ⟨_, u₃, hu₃, h⟩ := unchanged_bind hu₂.reachable (by trivial) h
          -- what comes next starts where this attempt has started
          have hagain := ((hu.trans hu₁).trans hu₂).trans hu₃
          rcases ih more (Nat.lt_succ_self more) hu₃.reachable h with
            ⟨herr, hrest⟩ | ⟨status, v, rfl, hv, hlast⟩
          · exact .inl ⟨herr, hagain.trans hrest⟩
          · exact .inr ⟨status, v, rfl, hagain.trans hv, hlast⟩
      · obtain ⟨_, u₁, hu₁, h⟩ := unchanged_bind hu.reachable (by trivial) h
        obtain ⟨rfl, rfl⟩ := Prod.mk.inj (Option.some.inj h)
        exact .inl ⟨⟨err, rfl⟩, hu.trans hu₁⟩

/-- **What any number of attempts leave behind.** -/
theorem attempts_leaves (hout : outside.Orderly) (e : Engine X) (levels : Nat) (c : Command)
    (more : Nat) {retry : Nat} {r : Except CommandError CommandStatus} (hw : Reachable outside w)
    (h : runAlone outside (e.attempts levels c more retry) w = some (r, w')) :
    Leaves outside w r w' := by
  rcases attempts_cases hout e levels c more hw h with ⟨-, hsame⟩ | ⟨status, u, rfl, hu, hlast⟩
  · exact .of_unchanged hsame
  · exact .trans hu (attempt_leaves hout e levels c hu.reachable hlast)

/-- **What the execution of a command leaves behind**, with any handlers and listeners: no lock, and
after an error nothing else either. -/
theorem execute_leaves (hout : outside.Orderly) (e : Engine X) (levels : Nat) (c : Command)
    {r : Except CommandError CommandStatus} (hw : Reachable outside w)
    (h : World.execute outside e levels c w = some (r, w')) : Leaves outside w r w' := by
  obtain ⟨result, u, hattempts, h⟩ := runAlone_bind_eq_some.mp h
  have hu := attempts_leaves hout e levels c _ hw hattempts
  obtain ⟨_, u₁, hu₁, h⟩ := unchanged_bind hu.1.reachable (by trivial) h
  obtain ⟨_, u₂, hu₂, h⟩ := unchanged_bind hu₁.reachable (by trivial) h
  obtain ⟨rfl, rfl⟩ := Prod.mk.inj (Option.some.inj h)
  have hrest := hu₁.trans hu₂
  exact ⟨hu.1.trans hrest.toSettled, fun err herr => (hu.2 err herr).trans hrest.committed⟩

end Engine

end RpkiAuthority
