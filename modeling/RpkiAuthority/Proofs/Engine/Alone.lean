import RpkiAuthority.Engine.World
import RpkiAuthority.Proofs.Storage.Release

/-!
# Processes that run alone

`World.runAlone` follows the structure of a process: nothing is done by ending, one step is done
by a step, and what is done in sequence is done in sequence. These three laws are all that is used
of it here.

A running command is a process with a state of its own beside the world. `Running.Keeps` says of
such a program that a relation between the state and the world before and after it holds whenever
it comes to its end. Relations that are reflexive and transitive are kept by programs made of
parts that keep them, and in particular by every action as soon as every answer to its questions
keeps them (`Engine.keeps_act`). That is how a statement about arbitrary handlers is reduced to
one about single questions.
-/

namespace RpkiAuthority

variable {X : Interface} {S α β : Type} {outside : Outside X S}

namespace World

/-! ### The three laws -/

@[simp] theorem runAlone_pure (a : α) (w : World S) :
    runAlone outside (pure a : Process X α) w = some (a, w) := rfl

theorem runAlone_step (q : SharedQuery X) (w : World S) :
    runAlone outside (Process.step q) w = step outside q w :=
  congrFun (Dialogue.conduct_ask (I := sharedInterface X) (m := StateT (World S) Option)
    (fun q => step outside q) q) w

theorem runAlone_bind (p : Process X α) (f : α → Process X β) (w : World S) :
    runAlone outside (p >>= f) w =
      (runAlone outside p w).bind fun r => runAlone outside (f r.1) r.2 := by
  rw [runAlone, Dialogue.conduct_bind]
  rfl

/-- What is done in sequence has a state of the world in between. -/
theorem runAlone_bind_eq_some {p : Process X α} {f : α → Process X β} {w w' : World S} {b : β} :
    runAlone outside (p >>= f) w = some (b, w') ↔
      ∃ a u, runAlone outside p w = some (a, u) ∧ runAlone outside (f a) u = some (b, w') := by
  rw [runAlone_bind, Option.bind_eq_some_iff]
  constructor
  · rintro ⟨⟨a, u⟩, h1, h2⟩
    exact ⟨a, u, h1, h2⟩
  · rintro ⟨a, u, h1, h2⟩
    exact ⟨(a, u), h1, h2⟩

/-- A process that is stuck never ends. -/
theorem runAlone_stuck (w : World S) : runAlone outside (Process.stuck : Process X α) w = none :=
  rfl

/-! ### The steps that may fail -/

theorem step_acquire_ok {w : World S} {id : AggregateId} {tx : TxId} {mode : LockMode}
    {s : Store CertificateAuthority} (h : w.store.lock id tx mode = .ok s) :
    step outside (.acquire tx id mode) w = some (.ok (), { w with store := s }) := by
  simp only [step, h]

theorem step_acquire_error {w : World S} {id : AggregateId} {tx : TxId} {mode : LockMode}
    {e : StorageError} (h : w.store.lock id tx mode = .error e) :
    step outside (.acquire tx id mode) w = some (.error e, w) := by
  simp only [step, h]

theorem step_commit_ok {w w' : World S} {tx : Transaction CertificateAuthority}
    {deletions : List AggregateId} {records : List PendingRecord}
    (h : w.commit tx deletions records = .ok w') :
    step outside (.commit tx deletions records) w = some (.ok (), w') := by
  simp only [step, h]

theorem step_commit_error {w : World S} {tx : Transaction CertificateAuthority}
    {deletions : List AggregateId} {records : List PendingRecord} {e : StorageError}
    (h : w.commit tx deletions records = .error e) :
    step outside (.commit tx deletions records) w = some (.error e, w) := by
  simp only [step, h]

end World

/-! ### Programs with a state of their own -/

/-- A relation between the state of a running command and the world before and after a program. -/
abbrev Running.Relation (X : Interface) (S : Type) :=
  RunState X → World S → RunState X → World S → Prop

/-- A relation is kept by a program that is run in a certain state: it holds between before and
after whenever the program comes to its end. -/
def Running.KeepsAt (outside : Outside X S) (R : Running.Relation X S) (c : RunState X)
    (m : Running X α) : Prop :=
  ∀ ⦃w a c' w'⦄, World.runAlone outside (m.run c) w = some ((a, c'), w') → R c w c' w'

/-- **A relation is kept by a program**, in whatever state it is run. -/
def Running.Keeps (outside : Outside X S) (R : Running.Relation X S) (m : Running X α) : Prop :=
  ∀ c, Running.KeepsAt outside R c m

namespace Running

/-- What never comes to its end keeps everything. -/
theorem keeps_stuck (R : Relation X S) :
    Keeps outside R (StateT.lift Process.stuck : Running X α) := by
  intro c w a c' w' h
  rw [StateT.run_lift, World.runAlone_bind, World.runAlone_stuck] at h
  exact absurd h (Option.some_ne_none _).symm

/-- A relation that holds where nothing happens, and over two programs in sequence. -/
structure Relation.Sequential (R : Relation X S) : Prop where
  refl : ∀ c w, R c w c w
  trans : ∀ ⦃c₁ w₁ c₂ w₂ c₃ w₃⦄, R c₁ w₁ c₂ w₂ → R c₂ w₂ c₃ w₃ → R c₁ w₁ c₃ w₃

variable {R : Relation X S}

/-- Looking at the state first tells the rest which state it is run in. -/
theorem keeps_get_bind {f : RunState X → Running X α} (h : ∀ c, KeepsAt outside R c (f c)) :
    Keeps outside R (get >>= f) := h

/-- Replacing the state keeps what holds between the old and the new one. -/
theorem keepsAt_set {c d : RunState X} (h : ∀ w, R c w d w) :
    KeepsAt outside R c (set d : Running X PUnit) := by
  intro w a c' w' hrun
  obtain ⟨⟨rfl, rfl⟩, rfl⟩ : ((PUnit.unit, d), w) = ((a, c'), w') := by simpa using hrun
  exact h w

theorem keeps_modify {f : RunState X → RunState X} (h : ∀ c w, R c w (f c) w) :
    Keeps outside R (modify f : Running X PUnit) := by
  intro c w a c' w' hrun
  obtain ⟨⟨rfl, rfl⟩, rfl⟩ : ((PUnit.unit, f c), w) = ((a, c'), w') := by simpa using hrun
  exact h c w

/-- A step does not touch the state, so the rest is run in the same one. -/
theorem step_run_eq_some {q : SharedQuery X} {c c' : RunState X} {w w' : World S}
    {r : (sharedInterface X).Reply q}
    (h : World.runAlone outside ((Running.step q).run c) w = some ((r, c'), w')) :
    World.step outside q w = some (r, w') ∧ c' = c := by
  rw [Running.step, StateT.run_lift] at h
  obtain ⟨r', u, h1, h2⟩ := World.runAlone_bind_eq_some.mp h
  rw [World.runAlone_step] at h1
  obtain ⟨⟨rfl, rfl⟩, rfl⟩ : ((r', c), u) = ((r, c'), w') := by simpa using h2
  exact ⟨h1, rfl⟩

theorem keepsAt_step {c : RunState X} {q : SharedQuery X}
    (h : ∀ ⦃w r w'⦄, World.step outside q w = some (r, w') → R c w c w') :
    KeepsAt outside R c (Running.step q) := by
  intro w r c' w' hrun
  obtain ⟨hstep, rfl⟩ := step_run_eq_some hrun
  exact h hstep

section Sequential

variable (hR : R.Sequential)

include hR

theorem keeps_pure (a : α) : Keeps outside R (pure a) := by
  intro c w a' c' w' h
  obtain ⟨⟨rfl, rfl⟩, rfl⟩ : ((a, c), w) = ((a', c'), w') := by simpa using h
  exact hR.refl c w

theorem keepsAt_bind {c : RunState X} {m : Running X α} {f : α → Running X β}
    (hm : KeepsAt outside R c m) (hf : ∀ a, Keeps outside R (f a)) :
    KeepsAt outside R c (m >>= f) := by
  intro w b c' w' h
  rw [StateT.run_bind] at h
  obtain ⟨⟨a, d⟩, u, h1, h2⟩ := World.runAlone_bind_eq_some.mp h
  exact hR.trans (hm h1) (hf a d h2)

theorem keeps_bind {m : Running X α} {f : α → Running X β} (hm : Keeps outside R m)
    (hf : ∀ a, Keeps outside R (f a)) : Keeps outside R (m >>= f) :=
  fun c => keepsAt_bind hR (hm c) hf

theorem keepsAt_step_bind {c : RunState X} {q : SharedQuery X}
    {f : (sharedInterface X).Reply q → Running X α}
    (h : ∀ ⦃w r w'⦄, World.step outside q w = some (r, w') → R c w c w')
    (hf : ∀ r, KeepsAt outside R c (f r)) : KeepsAt outside R c (Running.step q >>= f) := by
  intro w a c' w' hrun
  rw [StateT.run_bind] at hrun
  obtain ⟨⟨r, d⟩, u, h1, h2⟩ := World.runAlone_bind_eq_some.mp hrun
  obtain ⟨hstep, rfl⟩ := step_run_eq_some h1
  exact hR.trans (h hstep) (hf r h2)

end Sequential

end Running

/-- **An action keeps what all answers keep.** The induction is on the program: after an answer the
rest of it is a smaller program. -/
theorem Engine.keeps_act {R : Running.Relation X S} (hR : R.Sequential) (e : Engine X)
    (inside : Nesting X) (h : ∀ q, Running.Keeps outside R (e.answer inside q)) (a : Action X α) :
    Running.Keeps outside R (e.act inside a) := by
  show Running.Keeps outside R (Dialogue.conduct (e.answer inside) a.run)
  induction a.run with
  | done r => exact Running.keeps_pure hR r
  | ask q next ih => exact Running.keeps_bind hR (h q) ih

/-! ### The end of a command -/

namespace Engine

/-- What a command does when its handler has ended. -/
def wrapUp (c : Command) (result : Except CommandError Unit) (events : List String) :
    Running X (Except CommandError CommandStatus) :=
  match result with
  | .error .noEffect =>
    versionAfter c >>= fun version => pure (.ok ⟨false, ⟨c.authority.id, version⟩⟩)
  | .error err => pure (.error err)
  | .ok () =>
    versionAfter c >>= fun version =>
      (if c.group = .user ∨ !events.isEmpty then
        modify fun st => { st with records := st.records ++ [⟨c, version, events⟩] }
      else pure ()) >>= fun _ => pure (.ok ⟨true, ⟨c.authority.id, version⟩⟩)

/-- An error proper is passed on. -/
theorem wrapUp_error (c : Command) {err : CommandError} (herr : err ≠ .noEffect)
    (events : List String) : wrapUp (X := X) c (.error err) events = pure (.error err) := by
  cases err <;> first | rfl | exact absurd rfl herr

theorem run_eq (e : Engine X) (inside : Nesting X) (c : Command) :
    e.run inside c = checkVersion c >>= fun r =>
      match r with
      | .error err => pure (.error err)
      | .ok () => e.handle inside c >>= fun p => wrapUp c p.1 p.2 := by
  rw [run]
  refine bind_congr fun r => ?_
  cases r with
  | error err => rfl
  | ok _ =>
    refine bind_congr fun p => ?_
    obtain ⟨result, events⟩ := p
    cases result with
    | error err => cases err <;> rfl
    | ok _ =>
      refine bind_congr fun version => ?_
      dsimp only
      split <;> rfl

end Engine

end RpkiAuthority
