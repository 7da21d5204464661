import RpkiAuthority.Proofs.Concurrent.Meanwhile

/-!
# Processes that rely on nothing

A process **serves** a command (`Process.Serves`) if it does what the command is to do whatever
others do meanwhile: none of its steps changes anything that is committed, except for one, after
which all that is left to do is to release locks and to tell the status. That step is the end of the
command as if it were executed alone at this moment, in one go.

This is said by recursion on the process. Each of its steps is taken in a world that others may have
changed since the step before, and so the statement is closed under what others do
(`Process.Serves.meanwhile`). The rules follow the structure of processes: steps that write nothing
may come before (`Process.Quiet.serves_bind`, `Process.serves_step_bind`), and one process that
serves may come after another that had no effect (`Process.Serves.bind`). What a process has found
out in between is kept as a fact that lasts (`Lasting`), whatever others do.
-/

namespace RpkiAuthority

variable {X : Interface} {S : Type} {α β : Type} {outside : Outside X S}

namespace SharedQuery

/-- Whether a step leaves alone what is committed, in whatever world it is taken. -/
def isQuiet : SharedQuery X → Bool
  | .commit _ _ _ | .outside _ => false
  | _ => true

/-- Whether a step commits a change. -/
def writes (w : World S) : SharedQuery X → Bool
  | .commit tx deletions records => tx.hasChanges && (w.commit tx deletions records).isOk
  | _ => false

variable {q : SharedQuery X} {r : (sharedInterface X).Reply q} {w w' : World S}

theorem writes_of_isQuiet (h : q.isQuiet = true) (w : World S) : q.writes w = false := by
  cases q with
  | commit | outside => exact Bool.noConfusion h
  | _ => rfl

theorem committed_of_isQuiet (h : q.isQuiet = true)
    (hstep : World.step outside q w = some (r, w')) : w'.committed = w.committed := by
  have heffect := World.stepEffect_of_step hstep
  cases q with
  | commit | outside => exact Bool.noConfusion h
  | start | release =>
    obtain rfl : w' = _ := heffect
    rfl
  | acquire tx id mode =>
    rcases heffect with rfl | ⟨locks, -, rfl⟩
    · rfl
    · rfl
  | read | recordsSince | log | measure | draw | freshUuid | announcements | stuck =>
    exact Prod.ext (congrArg Store.aggregates heffect.1) heffect.2

end SharedQuery

namespace Process

/-! ### Quiet processes -/

/-- **A process is quiet** and ends with what is asked for, whatever it is answered. -/
def Quiet (P : α → Prop) : Process X α → Prop
  | .done a => P a
  | .ask q next => SharedQuery.isQuiet q = true ∧ ∀ r, Quiet P (next r)

namespace Quiet

variable {P : α → Prop} {Q : β → Prop}

theorem mono {P' : α → Prop} {p : Process X α} (hp : Quiet P p) (h : ∀ a, P a → P' a) :
    Quiet P' p := by
  induction p with
  | done a => exact h a hp
  | ask q next ih => exact ⟨hp.1, fun r => ih r (hp.2 r)⟩

theorem step {q : SharedQuery X} (h : q.isQuiet = true) :
    Quiet (fun _ => True) (Process.step q : Process X _) :=
  ⟨h, fun _ => trivial⟩

theorem bind {p : Process X α} {f : α → Process X β} (hp : Quiet P p)
    (hf : ∀ a, P a → Quiet Q (f a)) : Quiet Q (p >>= f) := by
  induction p with
  | done a => exact hf a hp
  | ask q next ih => exact ⟨hp.1, fun r => ih r (hp.2 r)⟩

theorem step_bind {q : SharedQuery X} {f : (sharedInterface X).Reply q → Process X β}
    (h : q.isQuiet = true) (hf : ∀ r, Quiet Q (f r)) : Quiet Q (Process.step q >>= f) :=
  (step h).bind fun r _ => hf r

end Quiet

/-! ### Serving a command -/

/-- **A process serves a command** from a world on, in which some commands have taken effect. -/
def Serves (outside : Outside X S) (c : Command) :
    Process X (Except CommandError CommandStatus) → World S → List Command → Prop
  | .done r, _, _ => effectOf r = none
  | .ask q next, w, commands => ∀ w' later r w'', w.Meanwhile commands w' later →
      (∀ id, Deleted id later → w'.store.get? id = none) →
      World.step outside q w' = some (r, w'') →
      (SharedQuery.writes w' q = false ∧ w''.committed = w'.committed ∧
        Serves outside c (next r) w'' later) ∨
      (SharedQuery.writes w' q = true ∧ (NotRecreated (later ++ [c]) →
        ∃ status, status.hasEffect = true ∧ c.Outcome w' (.ok status) w'' ∧
          Quiet (fun r => r = .ok status) (next r)))

/-- A fact about the world lasts whatever others do. -/
def Lasting (K : World S → List Command → Prop) : Prop :=
  ∀ ⦃w commands w' later⦄, w.Meanwhile commands w' later → K w commands → K w' later

section Rules

variable {c : Command} {w w' : World S} {commands later : List Command}
  {p : Process X (Except CommandError CommandStatus)}

/-- **Whatever others do**, the process goes on serving. -/
theorem Serves.meanwhile (h : Serves outside c p w commands)
    (hmeanwhile : w.Meanwhile commands w' later) : Serves outside c p w' later := by
  cases p with
  | done r => exact h
  | ask q next => exact fun v k r v' hv => h v k r v' (hmeanwhile.trans hv)

/-- A step comes first that writes nothing. -/
theorem serves_step_bind {q : SharedQuery X}
    {f : (sharedInterface X).Reply q → Process X (Except CommandError CommandStatus)}
    (hq : q.isQuiet = true)
    (hf : ∀ ⦃u k r v⦄, w.Meanwhile commands u k → World.step outside q u = some (r, v) →
      Serves outside c (f r) v k) :
    Serves outside c (Process.step q >>= f) w commands := by
  intro u k r v hmeanwhile _ hstep
  exact Or.inl ⟨SharedQuery.writes_of_isQuiet hq u, SharedQuery.committed_of_isQuiet hq hstep,
    hf hmeanwhile hstep⟩

/-- **A quiet process comes first**, while a fact lasts. -/
theorem Quiet.serves_bind {P : α → Prop} {K : World S → List Command → Prop} {p : Process X α}
    {f : α → Process X (Except CommandError CommandStatus)} (hp : Quiet P p) (hK : Lasting K)
    (h : K w commands) (hf : ∀ ⦃a u k⦄, P a → K u k → Serves outside c (f a) u k) :
    Serves outside c (p >>= f) w commands := by
  induction p generalizing w commands with
  | done a => exact hf hp h
  | ask q next ih =>
    intro u k r v hmeanwhile _ hstep
    have hsame : v.committed = u.committed := SharedQuery.committed_of_isQuiet hp.1 hstep
    exact Or.inl ⟨SharedQuery.writes_of_isQuiet hp.1 u, hsame,
      ih r (hp.2 r) (hK (hmeanwhile.then_same hsame) h)⟩

/-- A quiet process serves if it tells of no effect. -/
theorem Quiet.serves (h : Quiet (fun r => effectOf r = none) p) :
    Serves outside c p w commands := by
  induction p generalizing w commands with
  | done r => exact h
  | ask q next ih =>
    intro u k r v _ _ hstep
    exact Or.inl ⟨SharedQuery.writes_of_isQuiet h.1 u, SharedQuery.committed_of_isQuiet h.1 hstep,
      ih r (h.2 r)⟩

/-- **One process after another**: the second one serves where the first had no effect, and passes
the status on where it had one. -/
theorem Serves.bind
    {f : Except CommandError CommandStatus → Process X (Except CommandError CommandStatus)}
    (hp : Serves outside c p w commands)
    (hnone : ∀ ⦃r u k⦄, effectOf r = none → Serves outside c (f r) u k)
    (hok : ∀ status, Quiet (fun r => r = .ok status) (f (.ok status))) :
    Serves outside c (p >>= f) w commands := by
  induction p generalizing w commands with
  | done r => exact hnone hp
  | ask q next ih =>
    intro u k r v hmeanwhile hgone hstep
    rcases hp u k r v hmeanwhile hgone hstep with ⟨hwrites, hsame, hrest⟩ | ⟨hwrites, heffect⟩
    · exact Or.inl ⟨hwrites, hsame, ih r hrest⟩
    · refine Or.inr ⟨hwrites, fun hlasting => ?_⟩
      obtain ⟨status, heffective, houtcome, hquiet⟩ := heffect hlasting
      exact ⟨status, heffective, houtcome, hquiet.bind fun r hr => hr ▸ hok status⟩

end Rules

end Process

end RpkiAuthority
