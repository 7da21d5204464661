import RpkiAuthority.Proofs.Engine.Undisturbed
import RpkiAuthority.Proofs.Engine.Answers

/-!
# What a transaction does not look at

Most of what an action asks for has to do with the transaction alone. The lists of events, the
audiences and the records that are put off are kept beside it, and nothing would be answered
differently if there were others (`Running.Blind`). This is true of all quiet questions but the one
about the number of running commands (`Engine.blind_answer`), of the check of the version and of the
version in the end.

So if two runs differ in what is kept beside the transaction, then these parts of them are the same
up to that difference.
-/

namespace RpkiAuthority

variable {X : Interface} {α β : Type}

/-- The state with the events, audiences and records of another one beside its transaction. -/
def RunState.beside (s t : RunState X) : RunState X :=
  { s with scope := t.scope, frames := t.frames, records := t.records }

namespace Running

/-- **A program is blind** to what is kept beside the transaction. -/
def Blind (m : Running X α) : Prop :=
  ∀ s t : RunState X, m.run (s.beside t) = m.run s >>= fun p => pure (p.1, p.2.beside t)

theorem blind_pure (a : α) : Blind (pure a : Running X α) := by
  intro s t
  rw [StateT.run_pure, StateT.run_pure, pure_bind]

theorem blind_bind {m : Running X α} {f : α → Running X β} (hm : Blind m)
    (hf : ∀ a, Blind (f a)) : Blind (m >>= f) := by
  intro s t
  rw [StateT.run_bind, StateT.run_bind, hm s t, bind_assoc, bind_assoc]
  refine bind_congr fun p => ?_
  rw [pure_bind]
  exact hf p.1 p.2 t

theorem blind_step (q : SharedQuery X) : Blind (Running.step q) := by
  intro s t
  rw [Running.step, StateT.run_lift, StateT.run_lift, bind_assoc]
  exact bind_congr fun r => (pure_bind _ _).symm

/-- Changing the transaction or the marks. -/
theorem blind_modify {f : RunState X → RunState X}
    (hf : ∀ s t : RunState X, f (s.beside t) = (f s).beside t) :
    Blind (modify f : Running X PUnit) := by
  intro s t
  rw [StateT.run_modify, StateT.run_modify, pure_bind, hf]

theorem blind_lock (id : AggregateId) (mode : LockMode) :
    Blind (Running.lock (X := X) id mode) := by
  intro s t
  rw [lock_run, lock_run, bind_assoc]
  exact bind_congr fun r => (pure_bind _ _).symm

theorem blind_copyOf (id : AggregateId) : Blind (Running.copyOf (X := X) id) := by
  intro s t
  cases hfind : s.tx.entries.find? id with
  | some entry =>
    have hfind' : (s.beside t).tx.entries.find? id = some entry := hfind
    simp [Running.copyOf, hfind, hfind']
  | none =>
    have hfind' : (s.beside t).tx.entries.find? id = none := hfind
    refine (copyOf_run_seen hfind' none).trans ?_
    rw [show (Running.copyOf id).run s = _ from copyOf_run_seen hfind none, bind_assoc]
    exact bind_congr fun found => (pure_bind _ _).symm

theorem blind_setCopy (id : AggregateId) (entry : Entry CertificateAuthority) :
    Blind (Running.setCopy (X := X) id entry) :=
  blind_modify fun _ _ => rfl

theorem blind_onCopy (id : AggregateId)
    (action : Entry CertificateAuthority → Entry CertificateAuthority) :
    Blind (Running.onCopy (X := X) id action) := by
  refine blind_bind (blind_copyOf id) fun entry => ?_
  cases entry.working with
  | none => exact blind_pure _
  | some ca => exact blind_bind (blind_setCopy id _) fun _ => blind_pure _

end Running

namespace Engine

open Running

theorem blind_checkVersion (c : Command) : Blind (checkVersion (X := X) c) := by
  rw [checkVersion]
  split
  · exact blind_pure _
  · refine blind_bind (blind_copyOf _) fun entry => ?_
    cases entry.working with
    | none => exact blind_pure _
    | some ca =>
      dsimp only
      split
      · exact blind_pure _
      · refine blind_bind (blind_step _) fun records => ?_
        split <;> exact blind_pure _

theorem blind_versionAfter (c : Command) : Blind (versionAfter (X := X) c) := by
  refine blind_bind (blind_copyOf _) fun entry => ?_
  cases entry.pendingVersion with
  | some version => exact blind_pure _
  | none =>
    refine blind_bind (blind_step _) fun found => ?_
    cases found <;> exact blind_pure _

/-- **Answers to quiet questions are blind**, but for the number of running commands. -/
theorem blind_answer (e : Engine X) (inside : Nesting X) {q : ActionQuery X} (hq : q.IsQuiet)
    (hdepth : q ≠ .depth) : Blind (e.answer inside q) := by
  cases q with
  | publish | record | execute => exact hq.elim
  | depth => exact absurd rfl hdepth
  | lock id mode => exact blind_lock id mode
  | lockAndIncrement id =>
    refine blind_bind (blind_lock id .exclusive) fun r => ?_
    cases r with
    | error err => exact blind_pure _
    | ok _ =>
      exact blind_bind (blind_copyOf id) fun entry =>
        blind_bind (blind_setCopy id _) fun _ => blind_pure _
  | get id => exact blind_onCopy id _
  | update id change => exact blind_bind (blind_onCopy id _) fun r => blind_pure _
  | versionedId id =>
    refine blind_bind (blind_copyOf id) fun entry => ?_
    cases entry.pendingVersion <;> exact blind_pure _
  | insert ca =>
    refine blind_bind (blind_copyOf ca.id) fun entry => ?_
    cases hw : entry.working with
    | some found => exact blind_pure _
    | none => exact blind_bind (blind_setCopy ca.id _) fun _ => blind_pure _
  | remove id => exact blind_onCopy id _
  | deleteRecords id => exact blind_modify fun _ _ => rfl
  | log level message =>
    intro s t
    exact blind_step (.log ⟨level, s.logContext, message⟩) s t
  | logContext =>
    intro s t
    exact blind_pure s.logContext s t
  | settings => exact blind_pure _
  | announcements | freshUuid | outside => exact blind_step _

end Engine

end RpkiAuthority
