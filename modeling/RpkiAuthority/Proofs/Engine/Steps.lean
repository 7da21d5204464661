import RpkiAuthority.Proofs.Engine.Alone
import RpkiAuthority.Proofs.Engine.Transient

/-!
# Which steps commands take

What starts and ends transactions, counts, and waits before another attempt is the execution of a
command. The commands that run in the transaction, one inside the other, take none of these steps,
whatever their handlers and listeners do and however their steps are answered
(`Engine.only_nesting`): they look at authorities, get locks, write to the log and ask for what is
outside of the engine.

A process **takes only certain steps** (`Process.Only`) if this is so whatever it is answered, and
then every step of it that is taken is one of these (`Process.Ends.only`). In the same way it
**yields only certain values** (`Process.Yields`). A command that runs never yields that there was
nothing to do as an error, at whatever depth it runs (`Engine.yields_run`).
-/

namespace RpkiAuthority

variable {X : Interface} {α β : Type}

namespace SharedQuery

/-- Whether a step is one of those that running commands take. -/
def IsCommandStep : SharedQuery X → Prop
  | .start | .commit _ _ _ | .release _ | .measure _ | .draw _ => False
  | _ => True

end SharedQuery

/-! ### Taking only certain steps -/

namespace Process

variable {P : SharedQuery X → Prop}

/-- **A process takes only certain steps**, whatever it is answered. -/
def Only (P : SharedQuery X → Prop) : Process X α → Prop
  | .done _ => True
  | .ask q next => P q ∧ ∀ r, Only P (next r)

theorem only_step {q : SharedQuery X} (hq : P q) : Only P (Process.step q : Process X _) :=
  ⟨hq, fun _ => trivial⟩

theorem Only.bind {p : Process X α} {f : α → Process X β} (hp : Only P p)
    (hf : ∀ a, Only P (f a)) : Only P (p >>= f) := by
  induction p with
  | done a => exact hf a
  | ask q next ih => exact ⟨hp.1, fun r => ih r (hp.2 r)⟩

theorem Only.mono {Q : SharedQuery X → Prop} {p : Process X α} (hp : Only P p)
    (h : ∀ q, P q → Q q) : Only Q p := by
  induction p with
  | done a => trivial
  | ask q next ih => exact ⟨h q hp.1, fun r => ih r (hp.2 r)⟩

/-- All the steps that were taken are as they should be. -/
theorem Ends.only {p : Process X α} {steps : List (TakenStep X)} {a : α} (h : Ends p steps a)
    (hp : Only P p) : ∀ t ∈ steps, P t.query := by
  induction h with
  | done a =>
    intro t ht
    exact absurd ht List.not_mem_nil
  | ask rest ih =>
    intro t ht
    rcases List.mem_cons.mp ht with rfl | ht
    · exact hp.1
    · exact ih (hp.2 _) t ht

/-- **A process yields only certain values**, whatever it is answered. -/
def Yields (Q : α → Prop) : Process X α → Prop
  | .done a => Q a
  | .ask _ next => ∀ r, Yields Q (next r)

theorem yields_true (p : Process X α) : Yields (fun _ => True) p := by
  induction p with
  | done a => trivial
  | ask q next ih => exact ih

theorem Yields.bind {Q : α → Prop} {R : β → Prop} {p : Process X α} {f : α → Process X β}
    (hp : Yields Q p) (hf : ∀ a, Q a → Yields R (f a)) : Yields R (p >>= f) := by
  induction p with
  | done a => exact hf a hp
  | ask q next ih => exact fun r => ih r (hp r)

/-- The value depends on what comes last only. -/
theorem yields_bind {R : β → Prop} {p : Process X α} {f : α → Process X β}
    (hf : ∀ a, Yields R (f a)) : Yields R (p >>= f) :=
  (yields_true p).bind fun a _ => hf a

/-- The value that it ends with is as it should be. -/
theorem Ends.yields {Q : α → Prop} {p : Process X α} {steps : List (TakenStep X)} {a : α}
    (h : Ends p steps a) (hp : Yields Q p) : Q a := by
  induction h with
  | done a => exact hp
  | ask rest ih => exact ih (hp _)

end Process

namespace Running

variable {P : SharedQuery X → Prop}

/-- A program takes only certain steps in whatever state it is run. -/
def Only (P : SharedQuery X → Prop) (m : Running X α) : Prop := ∀ s, Process.Only P (m.run s)

theorem only_pure (a : α) : Only P (pure a : Running X α) := fun _ => trivial

theorem Only.bind {m : Running X α} {f : α → Running X β} (hm : Only P m)
    (hf : ∀ a, Only P (f a)) : Only P (m >>= f) := by
  intro s
  rw [StateT.run_bind]
  exact (hm s).bind fun p => hf p.1 p.2

theorem only_get : Only P (get : Running X (RunState X)) := fun _ => trivial

theorem only_set (s : RunState X) : Only P (set s : Running X PUnit) := fun _ => trivial

theorem only_modify (f : RunState X → RunState X) : Only P (modify f : Running X PUnit) :=
  fun _ => trivial

theorem only_step {q : SharedQuery X} (hq : P q) : Only P (Running.step q) := by
  intro s
  rw [Running.step, StateT.run_lift]
  exact (Process.only_step hq).bind fun _ => trivial

theorem only_stuck (h : P .stuck) : Only P (StateT.lift Process.stuck : Running X α) := by
  intro s
  rw [StateT.run_lift]
  exact Process.Only.bind ⟨h, fun r => r.elim⟩ fun _ => trivial

/-! ### Steps of commands -/

theorem only_lock (id : AggregateId) (mode : LockMode) :
    Only SharedQuery.IsCommandStep (Running.lock (X := X) id mode) := by
  refine only_get.bind fun s => (only_step trivial).bind fun r => ?_
  cases r <;> exact only_pure _

theorem only_copyOf (id : AggregateId) :
    Only SharedQuery.IsCommandStep (Running.copyOf (X := X) id) := by
  refine only_get.bind fun s => ?_
  cases s.tx.entries.find? id with
  | some entry => exact only_pure entry
  | none => exact (only_step trivial).bind fun found => (only_set _).bind fun _ => only_pure _

theorem only_onCopy (id : AggregateId)
    (action : Entry CertificateAuthority → Entry CertificateAuthority) :
    Only SharedQuery.IsCommandStep (Running.onCopy (X := X) id action) := by
  refine (only_copyOf id).bind fun entry => ?_
  cases entry.working with
  | none => exact only_pure _
  | some ca => exact (only_modify _).bind fun _ => only_pure _

end Running

namespace Engine

open Running SharedQuery

theorem only_checkVersion (c : Command) : Only IsCommandStep (checkVersion (X := X) c) := by
  rw [checkVersion]
  split
  · exact only_pure _
  · refine (only_copyOf _).bind fun entry => ?_
    cases entry.working with
    | none => exact only_pure _
    | some ca =>
      dsimp only
      split
      · exact only_pure _
      · refine (only_step trivial).bind fun records => ?_
        split <;> exact only_pure _

theorem only_versionAfter (c : Command) : Only IsCommandStep (versionAfter (X := X) c) := by
  refine (only_copyOf _).bind fun entry => ?_
  cases entry.pendingVersion with
  | some version => exact only_pure _
  | none =>
    refine (only_step trivial).bind fun found => ?_
    cases found <;> exact only_pure _

theorem only_wrapUp (c : Command) (result : Except CommandError Unit) (events : List String) :
    Only IsCommandStep (wrapUp (X := X) c result events) := by
  cases result with
  | error err =>
    by_cases herr : err = .noEffect
    · subst herr
      exact (only_versionAfter c).bind fun _ => only_pure _
    · rw [wrapUp_error c herr]
      exact only_pure _
  | ok _ =>
    refine (only_versionAfter c).bind fun version => Only.bind ?_ fun _ => only_pure _
    split
    · exact only_modify _
    · exact only_pure _

section Inside

variable (e : Engine X) {inside : Nesting X} (hrun : ∀ c, Only IsCommandStep (inside.run c))
  (hdeliver : ∀ event, Only IsCommandStep (inside.deliver event))

include hrun hdeliver

/-- Every question of an action is answered with steps of commands. -/
theorem only_answer (q : ActionQuery X) : Only IsCommandStep (e.answer inside q) := by
  cases q with
  | lock id mode => exact only_lock id mode
  | lockAndIncrement id =>
    refine (only_lock id .exclusive).bind fun r => ?_
    cases r with
    | error err => exact only_pure _
    | ok _ =>
      exact (only_copyOf id).bind fun entry => (only_modify _).bind fun _ => only_pure _
  | get id => exact only_onCopy id _
  | update id change => exact (only_onCopy id _).bind fun r => only_pure _
  | versionedId id =>
    refine (only_copyOf id).bind fun entry => ?_
    cases entry.pendingVersion <;> exact only_pure _
  | insert ca =>
    refine (only_copyOf ca.id).bind fun entry => ?_
    cases hw : entry.working with
    | some found => exact only_pure _
    | none => exact (only_modify _).bind fun _ => only_pure _
  | remove id => exact only_onCopy id _
  | deleteRecords id => exact only_modify _
  | publish event => exact (only_modify _).bind fun _ => hdeliver event
  | record event => exact only_modify _
  | execute command => exact hrun command
  | log level message => exact only_get.bind fun s => only_step trivial
  | depth | logContext => exact only_get.bind fun s => only_pure _
  | settings => exact only_pure _
  | announcements | freshUuid | outside => exact only_step trivial

/-- The induction is on the program of the action: after an answer the rest of it is smaller. -/
theorem only_act (a : Action X α) : Only IsCommandStep (e.act inside a) := by
  show Only IsCommandStep (Dialogue.conduct (e.answer inside) a.run)
  induction a.run with
  | done r => exact only_pure r
  | ask q next ih => exact (only_answer e hrun hdeliver q).bind ih

theorem only_run (c : Command) : Only IsCommandStep (e.run inside c) := by
  rw [run_eq]
  refine (only_checkVersion c).bind fun checked => ?_
  cases checked with
  | error err => exact only_pure _
  | ok _ =>
    refine Only.bind ?_ fun p => only_wrapUp c p.1 p.2
    exact only_get.bind fun before => (only_set _).bind fun _ =>
      (only_act e hrun hdeliver _).bind fun result => only_get.bind fun after =>
        (only_set _).bind fun _ => only_pure _

theorem only_deliver (event : AuthorityEvent) : Only IsCommandStep (e.deliver inside event) := by
  refine only_get.bind fun s => ?_
  -- the listeners are those of the state, one after the other until one fails
  induction s.scope.listeners with
  | nil => exact only_pure _
  | cons listener rest ih =>
    refine (only_act e hrun hdeliver (listener event)).bind fun r => ?_
    cases r with
    | ok _ => exact ih
    | error err => exact only_pure _

end Inside

/-- **Running commands take only steps of commands**, with any handlers and listeners and any number
of levels of nesting. The induction is on the levels: what is run inside of a command has one
less. -/
theorem only_nesting (e : Engine X) (levels : Nat) :
    (∀ c, Only IsCommandStep ((e.nesting levels).run c)) ∧
      ∀ event, Only IsCommandStep ((e.nesting levels).deliver event) := by
  induction levels with
  | zero => exact ⟨fun _ => only_stuck trivial, fun _ => only_stuck trivial⟩
  | succ levels ih =>
    exact ⟨fun c => only_run e ih.1 ih.2 c, fun event => only_deliver e ih.1 ih.2 event⟩

end Engine

/-! ### What commands yield -/

namespace Running

/-- A program yields only certain values in whatever state it is run. -/
def Yields (Q : α → Prop) (m : Running X α) : Prop :=
  ∀ s, Process.Yields (fun p => Q p.1) (m.run s)

variable {Q : α → Prop} {R : β → Prop}

theorem yields_pure {a : α} (h : Q a) : Yields Q (pure a : Running X α) := fun _ => h

theorem Yields.bind {m : Running X α} {f : α → Running X β} (hm : Yields Q m)
    (hf : ∀ a, Q a → Yields R (f a)) : Yields R (m >>= f) := by
  intro s
  rw [StateT.run_bind]
  exact (hm s).bind fun p hp => hf p.1 hp p.2

theorem yields_bind {m : Running X α} {f : α → Running X β} (hf : ∀ a, Yields R (f a)) :
    Yields R (m >>= f) := by
  intro s
  rw [StateT.run_bind]
  exact Process.yields_bind fun p => hf p.1 p.2

end Running

namespace Engine

open Running

/-- Anything but the error that there was nothing to do. -/
abbrev IsProper (r : Except CommandError α) : Prop := r ≠ .error .noEffect

theorem isProper_ok (a : α) : IsProper (.ok a) := nofun

theorem isProper_error {err : CommandError} (h : err ≠ .noEffect) :
    IsProper (.error err : Except CommandError α) :=
  fun hsame => h (Except.error.inj hsame)

theorem yields_checkVersion (c : Command) : Yields IsProper (checkVersion (X := X) c) := by
  rw [checkVersion]
  split
  · exact yields_pure (isProper_ok ())
  · refine yields_bind fun entry => ?_
    cases entry.working with
    | none => exact yields_pure (isProper_ok ())
    | some ca =>
      dsimp only
      split
      · exact yields_pure (isProper_ok ())
      · refine yields_bind fun records => ?_
        split
        · exact yields_pure (isProper_ok ())
        · exact yields_pure (isProper_error CommandError.noConfusion)

theorem yields_wrapUp (c : Command) (result : Except CommandError Unit) (events : List String) :
    Yields IsProper (wrapUp (X := X) c result events) := by
  cases result with
  | error err =>
    by_cases herr : err = .noEffect
    · subst herr
      exact yields_bind fun _ => yields_pure (isProper_ok _)
    · rw [wrapUp_error c herr]
      exact yields_pure (isProper_error herr)
  | ok _ => exact yields_bind fun _ => yields_bind fun _ => yields_pure (isProper_ok _)

/-- **A command that runs does not fail for want of an effect**, whatever its handler and the
listeners do, and whatever runs inside of it. -/
theorem yields_run (e : Engine X) (inside : Nesting X) (c : Command) :
    Yields IsProper (e.run inside c) := by
  rw [run_eq]
  refine (yields_checkVersion c).bind fun checked hchecked => ?_
  cases checked with
  | error err => exact yields_pure fun hsame => hchecked (congrArg _ (Except.error.inj hsame))
  | ok _ => exact yields_bind fun p => yields_wrapUp c p.1 p.2

/-- The same for commands at every depth. -/
theorem yields_nesting (e : Engine X) (levels : Nat) (c : Command) :
    Yields IsProper ((e.nesting levels).run c) := by
  cases levels with
  | zero => exact fun s => Process.Yields.bind (Q := fun _ => False) (fun r => r.elim) nofun
  | succ levels => exact yields_run e _ c

end Engine

end RpkiAuthority
