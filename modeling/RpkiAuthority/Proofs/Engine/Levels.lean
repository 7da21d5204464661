import RpkiAuthority.Proofs.Engine.Alone

/-!
# Levels of nesting

Commands run inside of commands, and how deep is bounded by a number of levels: where it is not
enough the process is stuck. So the number says nothing about what a command does. One that comes
to its end with some number of levels comes to the same end with every greater one
(`World.execute_mono`).

The argument is one induction on the levels. What uses them up is running a command and delivering
an event inside of another; everything else is put together from these, and goes as far as they do
(`Running.Within`).
-/

namespace RpkiAuthority

open World

variable {X : Interface} {S α β : Type} {outside : Outside X S}

/-- Where the first process comes to its end, the second one comes to the same end. -/
def Process.Within (outside : Outside X S) (p p' : Process X α) : Prop :=
  ∀ ⦃w r⦄, runAlone outside p w = some r → runAlone outside p' w = some r

theorem Process.Within.refl (p : Process X α) : Within outside p p := fun _ _ h => h

theorem Process.Within.bind {p p' : Process X α} {f f' : α → Process X β}
    (hp : Within outside p p') (hf : ∀ a, Within outside (f a) (f' a)) :
    Within outside (p >>= f) (p' >>= f') := by
  intro w r h
  obtain ⟨b, u⟩ := r
  obtain ⟨a, v, hv, h⟩ := runAlone_bind_eq_some.mp h
  exact runAlone_bind_eq_some.mpr ⟨a, v, hp hv, hf a h⟩

theorem Process.Within.bind_right {p : Process X α} {f f' : α → Process X β}
    (hf : ∀ a, Within outside (f a) (f' a)) : Within outside (p >>= f) (p >>= f') :=
  .bind (.refl p) hf

/-- The same for programs with a state, in every state. -/
def Running.Within (outside : Outside X S) (m m' : Running X α) : Prop :=
  ∀ st, Process.Within outside (m.run st) (m'.run st)

namespace Running

theorem Within.refl (m : Running X α) : Within outside m m := fun _ => .refl _

theorem Within.bind {m m' : Running X α} {f f' : α → Running X β} (hm : Within outside m m')
    (hf : ∀ a, Within outside (f a) (f' a)) : Within outside (m >>= f) (m' >>= f') := by
  intro st
  rw [StateT.run_bind, StateT.run_bind]
  exact .bind (hm st) fun p => hf p.1 p.2

/-- Only what comes after the same program differs. -/
theorem Within.bind_right {m : Running X α} {f f' : α → Running X β}
    (hf : ∀ a, Within outside (f a) (f' a)) : Within outside (m >>= f) (m >>= f') :=
  .bind (.refl m) hf

end Running

/-- One way of running commands and delivering events inside of others goes at least as far as
another. -/
structure Nesting.Within (outside : Outside X S) (inside inside' : Nesting X) : Prop where
  run : ∀ c, Running.Within outside (inside.run c) (inside'.run c)
  deliver : ∀ event, Running.Within outside (inside.deliver event) (inside'.deliver event)

namespace Engine

open Running

variable {e : Engine X} {inside inside' : Nesting X} (h : inside.Within outside inside')

include h

/-- Two of the questions of actions are answered by what runs inside, all others as before. -/
theorem within_answer (q : ActionQuery X) :
    Running.Within outside (e.answer inside q) (e.answer inside' q) := by
  cases q with
  | publish event => exact .bind_right fun _ => h.deliver event
  | execute command => exact h.run command
  | _ => exact .refl _

theorem within_act (a : Action X α) :
    Running.Within outside (e.act inside a) (e.act inside' a) := by
  show Running.Within outside (Dialogue.conduct (e.answer inside) a.run)
    (Dialogue.conduct (e.answer inside') a.run)
  induction a.run with
  | done r => exact .refl _
  | ask q next ih => exact .bind (within_answer h q) ih

theorem within_deliver (event : AuthorityEvent) :
    Running.Within outside (e.deliver inside event) (e.deliver inside' event) := by
  refine .bind_right fun st => ?_
  -- the listeners are those of the state, one after the other until one fails
  induction st.scope.listeners with
  | nil => exact .refl _
  | cons listener rest ih =>
    refine .bind (within_act h (listener event)) fun r => ?_
    cases r with
    | ok _ => exact ih
    | error err => exact .refl _

theorem within_handle (c : Command) :
    Running.Within outside (e.handle inside c) (e.handle inside' c) :=
  .bind_right fun _ => .bind_right fun _ => .bind (within_act h (e.handlers c.type c))
    fun _ => .refl _

theorem within_run (c : Command) : Running.Within outside (e.run inside c) (e.run inside' c) := by
  refine .bind_right fun checked => ?_
  cases checked with
  | error err => exact .refl _
  | ok _ => exact .bind (within_handle h c) fun _ => .refl _

end Engine

/-- **One level more goes at least as far.** -/
theorem Engine.nesting_within (e : Engine X) (levels : Nat) :
    (e.nesting levels).Within outside (e.nesting (levels + 1)) := by
  induction levels with
  | zero =>
    constructor <;>
    · intro _ st w r h
      rw [nesting, StateT.run_lift, runAlone_bind, runAlone_stuck] at h
      exact absurd h (Option.some_ne_none _).symm
  | succ levels ih => exact ⟨Engine.within_run ih, Engine.within_deliver ih⟩

/-! ### Executing a command -/

namespace Engine

theorem attempt_within (e : Engine X) (levels : Nat) (c : Command) :
    Process.Within outside (e.attempt levels c) (e.attempt (levels + 1) c) := by
  refine .bind_right fun tx => ?_
  exact .bind ((nesting_within e levels).run c _) fun _ => .refl _

theorem attempts_within (e : Engine X) (levels : Nat) (c : Command) (more retry : Nat) :
    Process.Within outside (e.attempts levels c more retry)
      (e.attempts (levels + 1) c more retry) := by
  induction more using Nat.strongRecOn generalizing retry with
  | ind more ih =>
    rw [attempts, attempts]
    refine .bind (attempt_within e levels c) fun r => ?_
    cases r with
    | ok status => exact .refl _
    | error err =>
      dsimp only
      split
      · cases more with
        | zero => exact .refl _
        | succ more =>
          refine .bind_right fun _ => .bind_right fun _ => .bind_right fun _ => ?_
          exact ih more (Nat.lt_succ_self more) (retry + 1)
      · exact .refl _

theorem execute_within (e : Engine X) (levels : Nat) (c : Command) :
    Process.Within outside (e.execute levels c) (e.execute (levels + 1) c) :=
  .bind (attempts_within e levels c _ 0) fun _ => .refl _

end Engine

/-- **More levels never change what a command does** that comes to its end. -/
theorem World.execute_mono {e : Engine X} {c : Command} {w : World S} {levels more : Nat}
    (hle : levels ≤ more) {r : Except CommandError CommandStatus × World S}
    (h : World.execute outside e levels c w = some r) :
    World.execute outside e more c w = some r := by
  induction hle with
  | refl => exact h
  | step _ ih => exact Engine.execute_within e _ c ih

end RpkiAuthority
