import RpkiAuthority.Proofs.Engine.Failure

/-!
# Commands that fail inside of others

A command that fails inside of another one undoes nothing by itself: all of them share one
transaction, and what is put off until the commit is never taken back (`Staged`). The error is told
to the handler or listener that asked for the command. If this one fails as well, the one that it
works for is told so in turn, and so on. An error that gets to the top ends the attempt, and nothing
of it is ever seen.

The one other possibility is that somebody on the way **goes on** after the error
(`Activation.GoesOn`). So an execution leaves nothing behind, or it leaves what one attempt commits,
and in this attempt somebody went on after every command that failed inside
(`Engine.execute_undone_or_caught`). Then what the command had staged is committed with the rest
(`Engine.not_undone_when_caught`).

Who works for whom is a relation between **activations**, handlers and listeners at work
(`Activation.Starts`). It does not depend on what they do; they may be any programs.
-/

namespace RpkiAuthority

open World

variable {X : Interface} {S : Type}

/-! ### Activations -/

/-- **A handler or listener at work**: its program, with the levels of nesting below it, and the
state and the world in which it starts. -/
structure Activation (X : Interface) (S : Type) where
  levels : Nat
  action : Action X Unit
  state : RunState X
  world : World S

/-- The state in which a handler starts. -/
def RunState.entered (e : Engine X) (c : RunState X) : RunState X :=
  { c with
    scope := (Engine.subscribeAll e.listeners c.scope.enter.2).2
    frames := [] :: c.frames }

/-- The state when a handler has ended that started in another state. -/
def RunState.left (e : Engine X) (before after : RunState X) : RunState X :=
  { after with
    scope := ((Engine.subscribeAll e.listeners before.scope.enter.2).1.foldl Propagation.cancel
      after.scope).leave before.scope.enter.1
    frames := after.frames.drop 1 }

/-- **A program comes to a question**, in a state and a world that the answers before it have led
to. -/
inductive Engine.Asks (outside : Outside X S) (e : Engine X) (inside : Nesting X) {α : Type}
    (q : ActionQuery X) (c : RunState X) (w : World S) :
    Dialogue (actionInterface X) α → RunState X → World S → Prop
  | now {next : (actionInterface X).Reply q → Dialogue (actionInterface X) α} :
      Asks outside e inside q c w (.ask q next) c w
  | later {first : ActionQuery X} {next : (actionInterface X).Reply first →
        Dialogue (actionInterface X) α} {c₀ c₁ : RunState X} {w₀ w₁ : World S}
      {r : (actionInterface X).Reply first}
      (answered : runAlone outside ((e.answer inside first).run c₀) w₀ = some ((r, c₁), w₁))
      (rest : Asks outside e inside q c w (next r) c₁ w₁) :
      Asks outside e inside q c w (.ask first next) c₀ w₀

/-- The handler of a command that is run in some state and is not stale. -/
inductive Engine.Handled (outside : Outside X S) (e : Engine X) (c : Command) (s : RunState X)
    (w : World S) : Nat → Activation X S → Prop
  | intro {levels : Nat} {s₁ : RunState X} {w₁ : World S}
      (checked : runAlone outside ((checkVersion c).run s) w = some ((.ok (), s₁), w₁)) :
      Handled outside e c s w (levels + 1) ⟨levels, e.handlers c.type c, s₁.entered e, w₁⟩

/-- A listener that an event is delivered to, after those before it have not failed. -/
inductive Engine.Notified (outside : Outside X S) (e : Engine X) (event : AuthorityEvent)
    (s : RunState X) (w : World S) : Nat → Activation X S → Prop
  | intro {levels : Nat} {before after : List (Listener X)} {listener : Listener X}
      {s₁ : RunState X} {w₁ : World S}
      (subscribed : s.scope.listeners = before ++ listener :: after)
      (heard : runAlone outside ((e.deliverTo (e.nesting levels) event before).run s) w =
        some ((.ok (), s₁), w₁)) :
      Notified outside e event s w (levels + 1) ⟨levels, listener event, s₁, w₁⟩

namespace Activation

variable (outside : Outside X S) (e : Engine X) (p : Activation X S)

/-- What a handler or listener at work asks for. -/
def Asks (q : ActionQuery X) (c : RunState X) (w : World S) : Prop :=
  e.Asks outside (e.nesting p.levels) q c w p.action.run p.state p.world

/-- How a handler or listener ends. -/
def Ends (r : Except CommandError Unit) (c : RunState X) (w : World S) : Prop :=
  runAlone outside ((e.act (e.nesting p.levels) p.action).run p.state) p.world = some ((r, c), w)

/-- **One handler or listener sets another one to work**, by running a command or publishing an
event. -/
inductive Starts : Activation X S → Prop
  | command {c : Command} {s : RunState X} {w : World S} {p' : Activation X S}
      (asked : p.Asks outside e (.execute c) s w)
      (handled : e.Handled outside c s w p.levels p') : Starts p'
  | event {event : AuthorityEvent} {s : RunState X} {w : World S} {p' : Activation X S}
      (asked : p.Asks outside e (.publish event) s w)
      (notified : e.Notified outside event (s.noteEvent event) w p.levels p') : Starts p'

/-- **A command fails inside** of a handler or listener, with the state that it leaves. -/
inductive RunsFailing (after : RunState X) : Prop
  | intro {c : Command} {s : RunState X} {w w' : World S} {err : CommandError}
      (asked : p.Asks outside e (.execute c) s w) (other : err ≠ .noEffect)
      (failed : runAlone outside (((e.nesting p.levels).run c).run s) w =
        some ((.error err, after), w'))

/-- A handler or listener is told of an error, by a command that it runs or by a listener that it
sends an event to. -/
inductive IsTold : Prop
  | command {after : RunState X} (h : p.RunsFailing outside e after)
  | event {event : AuthorityEvent} {s after : RunState X} {w w' : World S} {err : CommandError}
      (asked : p.Asks outside e (.publish event) s w) (other : err ≠ .noEffect)
      (failed : runAlone outside (((e.nesting p.levels).deliver event).run (s.noteEvent event)) w =
        some ((.error err, after), w'))

/-- **A handler or listener goes on** after an error: it is told of one and ends without one, or
says that there was nothing to do. -/
def GoesOn : Prop :=
  p.IsTold outside e ∧ ∃ r c w, p.Ends outside e r c w ∧ ∀ err, r = .error err → err = .noEffect

end Activation

/-! ### Nothing is taken back -/

/-- **What was put off until the commit is kept**, and more may come after it. -/
def Staged (c c' : RunState X) : Prop :=
  c.records <+: c'.records ∧ c.deletions <+: c'.deletions

theorem Staged.refl (c : RunState X) : Staged c c := ⟨List.prefix_rfl, List.prefix_rfl⟩

theorem Staged.trans {c₁ c₂ c₃ : RunState X} (h : Staged c₁ c₂) (h' : Staged c₂ c₃) :
    Staged c₁ c₃ :=
  ⟨h.1.trans h'.1, h.2.trans h'.2⟩

variable {outside : Outside X S} {e : Engine X}

theorem staged_lenient (outside : Outside X S) :
    Running.Relation.Lenient outside fun (c : RunState X) _ c' _ => Staged c c' :=
  Running.Relation.Tolerant.lenient
    { refl := fun c _ => .refl c
      trans := fun _ _ _ _ _ _ => .trans
      step := fun c _ _ _ _ _ _ => .refl c
      set := fun _ _ _ _ hrecords hdeletions => ⟨hrecords, hdeletions⟩ }

namespace Engine

/-- Whatever a program does, nothing is taken back. -/
theorem staged_act {levels : Nat} {a : Action X Unit} {c c' : RunState X} {w w' : World S}
    {r : Except CommandError Unit}
    (h : runAlone outside ((e.act (e.nesting levels) a).run c) w = some ((r, c'), w')) :
    Staged c c' := by
  have hR := staged_lenient outside
  obtain ⟨hrun, hdeliver⟩ := keeps_nesting hR e levels
  exact keeps_act hR.toSequential e _ (keeps_answer hR e hrun hdeliver) a c h

/-! ### Questions and their answers -/

/-- **A question is answered** before the program ends, and what is left of it comes after the
answer. -/
theorem Asks.answered {inside : Nesting X} {q : ActionQuery X} {a : Action X Unit}
    {c c₀ c' : RunState X} {w w₀ w' : World S} {result : Except CommandError Unit}
    (h : e.Asks outside inside q c w a.run c₀ w₀)
    (hrun : runAlone outside ((e.act inside a).run c₀) w₀ = some ((result, c'), w')) :
    ∃ r c₁ w₁, runAlone outside ((e.answer inside q).run c) w = some ((r, c₁), w₁) ∧
      ∃ rest : Action X Unit,
        runAlone outside ((e.act inside rest).run c₁) w₁ = some ((result, c'), w') := by
  replace hrun : runAlone outside ((a.run.conduct (e.answer inside)).run c₀) w₀ =
    some ((result, c'), w') := hrun
  generalize a.run = program at h hrun
  induction h with
  | now =>
    obtain ⟨⟨r, c₁⟩, w₁, hr, hrest⟩ := runAlone_bind_eq_some.mp hrun
    exact ⟨r, c₁, w₁, hr, _, hrest⟩
  | later answered _ ih =>
    obtain ⟨⟨r, c₁⟩, w₁, hr, hrest⟩ := runAlone_bind_eq_some.mp hrun
    obtain ⟨hsame, rfl⟩ := Prod.mk.inj (Option.some.inj (answered.symm.trans hr))
    obtain ⟨rfl, rfl⟩ := Prod.mk.inj hsame
    exact ih hrest

/-- A handler is run with an audience and a list of events of its own, which are what the command is
left with. -/
theorem runAlone_handle {inside : Nesting X} {c : Command} {s s' : RunState X} {w w' : World S}
    {ended : Except CommandError Unit × List String}
    (h : runAlone outside ((e.handle inside c).run s) w = some ((ended, s'), w')) :
    ∃ s₁, runAlone outside ((e.act inside (e.handlers c.type c)).run (s.entered e)) w =
      some ((ended.1, s₁), w') ∧ ended.2 = s₁.frames.headD [] ∧ s' = s.left e s₁ := by
  have hrun : (e.handle inside c).run s =
      (e.act inside (e.handlers c.type c)).run (s.entered e) >>= fun p =>
        pure ((p.1, p.2.frames.headD []), s.left e p.2) := rfl
  rw [hrun] at h
  obtain ⟨⟨result, s₁⟩, w₁, hact, hend⟩ := runAlone_bind_eq_some.mp h
  obtain ⟨hsame, rfl⟩ := Prod.mk.inj (Option.some.inj hend)
  obtain ⟨rfl, rfl⟩ := Prod.mk.inj hsame
  exact ⟨s₁, hact, rfl, rfl⟩

theorem Handled.ends {c : Command} {s s' : RunState X} {w w' : World S} {levels : Nat}
    {p : Activation X S} {r : Except CommandError CommandStatus}
    (h : e.Handled outside c s w levels p)
    (hrun : runAlone outside (((e.nesting levels).run c).run s) w = some ((r, s'), w')) :
    ∃ result s₁ w₁, p.Ends outside e result s₁ w₁ ∧ Staged s₁ s' ∧
      ∀ err, result = .error err → err ≠ .noEffect → r = .error err := by
  obtain ⟨checked⟩ := h
  replace hrun : runAlone outside ((e.run (e.nesting _) c).run s) w = some ((r, s'), w') := hrun
  rw [run_eq, StateT.run_bind] at hrun
  obtain ⟨⟨check, s₁⟩, w₁, hcheck, hrun⟩ := runAlone_bind_eq_some.mp hrun
  obtain ⟨hsame, rfl⟩ := Prod.mk.inj (Option.some.inj (checked.symm.trans hcheck))
  obtain ⟨rfl, rfl⟩ := Prod.mk.inj hsame
  obtain ⟨⟨⟨result, events⟩, s₂⟩, w₂, hhandle, hwrap⟩ := runAlone_bind_eq_some.mp hrun
  replace hwrap : runAlone outside ((wrapUp c result events).run s₂) w₂ =
    some ((r, s'), w') := hwrap
  obtain ⟨s₃, hact, -, rfl⟩ := runAlone_handle hhandle
  refine ⟨result, s₃, w₂, hact, ?_, ?_⟩
  · have hstaged := keeps_wrapUp (staged_lenient outside).toQuiet
      (fun _ w _ _ hlooked => (staged_lenient outside).record w hlooked) result events _ hwrap
    exact hstaged
  · rintro err rfl hother
    rw [wrapUp_error c hother] at hwrap
    obtain ⟨hend, -⟩ := Prod.mk.inj (Option.some.inj hwrap)
    exact (Prod.mk.inj hend).1.symm

/-- Events are delivered to the rest of the listeners once those before them have not failed. -/
theorem runAlone_deliverTo_append {inside : Nesting X} {event : AuthorityEvent}
    {before : List (Listener X)} (rest : List (Listener X)) {s s₁ : RunState X} {w w₁ : World S}
    (h : runAlone outside ((e.deliverTo inside event before).run s) w = some ((.ok (), s₁), w₁)) :
    runAlone outside ((e.deliverTo inside event (before ++ rest)).run s) w =
      runAlone outside ((e.deliverTo inside event rest).run s₁) w₁ := by
  induction before generalizing s w with
  | nil =>
    obtain ⟨hsame, rfl⟩ := Prod.mk.inj (Option.some.inj h)
    obtain ⟨-, rfl⟩ := Prod.mk.inj hsame
    rfl
  | cons listener before ih =>
    rw [deliverTo, StateT.run_bind] at h
    obtain ⟨⟨result, s₂⟩, w₂, hact, hrest⟩ := runAlone_bind_eq_some.mp h
    rw [List.cons_append, deliverTo, StateT.run_bind, runAlone_bind, hact, Option.bind_some]
    cases result with
    | ok _ => exact ih hrest
    | error err =>
      obtain ⟨hsame, -⟩ := Prod.mk.inj (Option.some.inj hrest)
      exact absurd (Prod.mk.inj hsame).1 (by simp)

theorem Notified.ends {event : AuthorityEvent} {s s' : RunState X} {w w' : World S} {levels : Nat}
    {p : Activation X S} {r : Except CommandError Unit}
    (h : e.Notified outside event s w levels p)
    (hrun : runAlone outside (((e.nesting levels).deliver event).run s) w = some ((r, s'), w')) :
    ∃ result s₁ w₁, p.Ends outside e result s₁ w₁ ∧ Staged s₁ s' ∧
      ∀ err, result = .error err → r = .error err := by
  obtain @⟨levels, before, after, listener, s₁, w₁, subscribed, heard⟩ := h
  replace hrun : runAlone outside
      ((e.deliverTo (e.nesting levels) event s.scope.listeners).run s) w =
    some ((r, s'), w') := hrun
  rw [subscribed, runAlone_deliverTo_append _ heard, deliverTo, StateT.run_bind] at hrun
  obtain ⟨⟨result, s₂⟩, w₂, hact, hrest⟩ := runAlone_bind_eq_some.mp hrun
  cases result with
  | ok _ =>
    have hR := staged_lenient outside
    obtain ⟨hinside, hdeliver⟩ := keeps_nesting hR e levels
    have hlater := keeps_deliverTo hR.toSequential e (keeps_answer hR e hinside hdeliver)
    exact ⟨_, s₂, w₂, hact, hlater event after s₂ hrest, by simp⟩
  | error err =>
    obtain ⟨hsame, -⟩ := Prod.mk.inj (Option.some.inj hrest)
    obtain ⟨rfl, rfl⟩ := Prod.mk.inj hsame
    exact ⟨_, s₂, w₂, hact, .refl s₂, fun _ herr => herr⟩

end Engine

/-! ### Errors on their way -/

namespace Activation

variable {p p' : Activation X S} {r : Except CommandError Unit} {c after : RunState X} {w : World S}

/-- **Whatever is set to work comes to an end** before the one that has set it to work, which is
told of it if that is an error. -/
theorem Starts.ends (h : p.Starts outside e p') (hend : p.Ends outside e r c w) :
    ∃ r' c' w', p'.Ends outside e r' c' w' ∧ Staged c' c ∧
      ∀ err, r' = .error err → err ≠ .noEffect → p.IsTold outside e := by
  cases h with
  | @command c₁ s u _ asked handled =>
    obtain ⟨answer, c₂, u₂, hanswer, rest, hrest⟩ := Engine.Asks.answered asked hend
    obtain ⟨r', c', w', hend', hstaged, hpassed⟩ := handled.ends hanswer
    refine ⟨r', c', w', hend', hstaged.trans (Engine.staged_act hrest), fun err herr hother => ?_⟩
    rw [hpassed err herr hother] at hanswer
    exact .command ⟨asked, hother, hanswer⟩
  | @event ev s u _ asked notified =>
    obtain ⟨answer, c₂, u₂, hanswer, rest, hrest⟩ := Engine.Asks.answered asked hend
    replace hanswer : runAlone outside (((e.nesting p.levels).deliver ev).run (s.noteEvent ev)) u =
      some ((answer, c₂), u₂) := hanswer
    obtain ⟨r', c', w', hend', hstaged, hpassed⟩ := notified.ends hanswer
    refine ⟨r', c', w', hend', hstaged.trans (Engine.staged_act hrest), fun err herr hother => ?_⟩
    rw [hpassed err herr] at hanswer
    exact .event asked hother hanswer

/-- **A handler or listener that is told of an error fails as well, or goes on.** -/
theorem IsTold.fails_or_goesOn (h : p.IsTold outside e) (hend : p.Ends outside e r c w) :
    (∃ err, r = .error err ∧ err ≠ .noEffect) ∨ p.GoesOn outside e := by
  by_cases hother : ∃ err, r = .error err ∧ err ≠ .noEffect
  · exact .inl hother
  · exact .inr ⟨h, r, c, w, hend, fun err herr =>
      Classical.byContradiction fun hne => hother ⟨err, herr, hne⟩⟩

/-- **An error gets to the top, or somebody on the way goes on.** The induction is on the way from
the top to the place where a command fails. -/
theorem RunsFailing.fails_or_goesOn {top : Activation X S}
    (hway : Relation.ReflTransGen (Starts outside e) top p) (h : p.RunsFailing outside e after)
    (hend : top.Ends outside e r c w) :
    ((∃ err, r = .error err ∧ err ≠ .noEffect) ∨
      ∃ q, Relation.ReflTransGen (Starts outside e) top q ∧
        Relation.ReflTransGen (Starts outside e) q p ∧ q.GoesOn outside e) ∧ Staged after c := by
  induction hway using Relation.ReflTransGen.head_induction_on generalizing r c w with
  | refl =>
    refine ⟨?_, ?_⟩
    · exact ((IsTold.command h).fails_or_goesOn hend).imp_right
        fun hgoes => ⟨p, .refl, .refl, hgoes⟩
    · obtain ⟨asked, hother, failed⟩ := h
      obtain ⟨answer, c₂, u₂, hanswer, rest, hrest⟩ := Engine.Asks.answered asked hend
      obtain ⟨hsame, -⟩ := Prod.mk.inj (Option.some.inj (failed.symm.trans hanswer))
      obtain ⟨-, rfl⟩ := Prod.mk.inj hsame
      exact Engine.staged_act hrest
  | @head first second hstart hway ih =>
    obtain ⟨r', c', w', hend', hstaged, htold⟩ := hstart.ends hend
    obtain ⟨hcases, hafter⟩ := ih hend'
    refine ⟨?_, hafter.trans hstaged⟩
    rcases hcases with ⟨err, herr, hother⟩ | ⟨q, hq, hrest, hgoes⟩
    · exact ((htold err herr hother).fails_or_goesOn hend).imp_right
        fun hgoes => ⟨first, .refl, .head hstart hway, hgoes⟩
    · exact .inr ⟨q, .head hstart hq, hrest, hgoes⟩

end Activation

/-! ### Executions -/

namespace Engine

/-- **What an attempt commits**: the command comes to its end in a transaction of its own, and then
all that it leaves in its state is written. -/
def Commits (outside : Outside X S) (e : Engine X) (levels : Nat) (c : Command) (u : World S)
    (status : CommandStatus) (state : RunState X) (w : World S) : Prop :=
  ∃ x v, runAlone outside (((e.nesting levels).run c).run
      (RunState.new u.store.begin.1 (contextOf c))) { u with store := u.store.begin.2 } =
        some ((.ok status, state), x) ∧
    x.commit state.tx state.deletions state.records = .ok v ∧ w.committed = v.committed

variable {levels : Nat} {c : Command} {status : CommandStatus} {u w w' : World S}

/-- Nothing but the log is written when subscriptions are dropped. -/
theorem logDropped_log {context : LogContext} {counts : List Nat} {a : Unit}
    (h : runAlone outside (logDropped (X := X) context counts) w = some (a, w')) :
    ∃ lines, w' = { w with log := lines } := by
  induction counts generalizing w with
  | nil =>
    obtain ⟨-, rfl⟩ := Prod.mk.inj (Option.some.inj h)
    exact ⟨w.log, rfl⟩
  | cons count rest ih =>
    obtain ⟨_, v, hv, h⟩ := runAlone_bind_eq_some.mp h
    obtain ⟨-, rfl⟩ := Prod.mk.inj (Option.some.inj hv)
    obtain ⟨lines, hlines⟩ := ih h
    exact ⟨lines, hlines⟩

/-- What is committed does not depend on the log. -/
theorem commit_of_log {lines : List LogLine} {tx : Transaction CertificateAuthority}
    {deletions : List AggregateId} {records : List PendingRecord}
    (h : World.commit { w with log := lines } tx deletions records = .ok w') :
    ∃ v, w.commit tx deletions records = .ok v ∧ w'.committed = v.committed := by
  rw [World.commit] at h ⊢
  dsimp only at h
  cases hstore : w.store.commit tx with
  | error err =>
    rw [hstore] at h
    exact absurd h (by simp)
  | ok committed =>
    rw [hstore] at h
    obtain rfl := Except.ok.inj h
    exact ⟨_, rfl, rfl⟩

/-- An attempt that does not fail is committed. -/
theorem attempt_commits
    (h : runAlone outside (e.attempt levels c) u = some (.ok status, w)) :
    ∃ state, e.Commits outside levels c u status state w := by
  obtain ⟨tx, u₁, hstart, h⟩ := runAlone_bind_eq_some.mp h
  rw [runAlone_step] at hstart
  obtain ⟨rfl, rfl⟩ := Prod.mk.inj (Option.some.inj hstart)
  obtain ⟨⟨result, state⟩, x, hrun, h⟩ := runAlone_bind_eq_some.mp h
  obtain ⟨_, y, hlog, h⟩ := runAlone_bind_eq_some.mp h
  obtain ⟨lines, rfl⟩ := logDropped_log hlog
  cases result with
  | error err =>
    obtain ⟨_, z, -, h⟩ := runAlone_bind_eq_some.mp h
    exact absurd (Prod.mk.inj (Option.some.inj h)).1 (by simp)
  | ok _ =>
    obtain ⟨committed, z, hcommit, h⟩ := runAlone_bind_eq_some.mp h
    obtain ⟨_, z', hrelease, h⟩ := runAlone_bind_eq_some.mp h
    obtain ⟨-, rfl⟩ := Prod.mk.inj (Option.some.inj hrelease)
    rw [runAlone_step] at hcommit
    cases hc : World.commit { x with log := lines } state.tx state.deletions state.records with
    | error err =>
      obtain ⟨rfl, -⟩ := Prod.mk.inj (Option.some.inj ((step_commit_error hc).symm.trans hcommit))
      exact absurd (Prod.mk.inj (Option.some.inj h)).1 (by simp)
    | ok v =>
      obtain ⟨rfl, rfl⟩ := Prod.mk.inj (Option.some.inj ((step_commit_ok hc).symm.trans hcommit))
      obtain ⟨hstatus, rfl⟩ := Prod.mk.inj (Option.some.inj h)
      obtain rfl := Except.ok.inj hstatus
      obtain ⟨v', hv', hsame⟩ := commit_of_log hc
      exact ⟨state, x, v', hrun, hv', hsame⟩

/-- Counting changes nothing that is committed. -/
theorem committed_measure (w : World S) (m : Measurement) :
    (w.measure m).committed = w.committed := by
  cases m <;> rfl

/-- **A command that fails inside of others is undone, unless somebody goes on after the error**:
with any handlers and listeners, nothing but the outside has changed what is committed when an
execution has failed. When it has not, then what is left of it is what one attempt commits, and
after every command that failed inside of this attempt, at whatever depth, one of the handlers and
listeners that it was run inside of went on. What was put off until the commit when such a command
failed, records of the commands inside of it included, is then written with the rest. -/
theorem execute_undone_or_caught (hout : outside.Orderly) (hw : Reachable outside w)
    {r : Except CommandError CommandStatus}
    (h : World.execute outside e levels c w = some (r, w')) :
    (∃ err, r = .error err) ∧ OnlyOutside outside w w' ∨
      ∃ status u state, r = .ok status ∧ OnlyOutside outside w u ∧
        e.Commits outside levels c u status state w' ∧
        ∀ top p after,
          e.Handled outside c (RunState.new u.store.begin.1 (contextOf c))
            { u with store := u.store.begin.2 } levels top →
          Relation.ReflTransGen (Activation.Starts outside e) top p →
          p.RunsFailing outside e after →
          (∃ q, Relation.ReflTransGen (Activation.Starts outside e) top q ∧
            Relation.ReflTransGen (Activation.Starts outside e) q p ∧ q.GoesOn outside e) ∧
          Staged after state := by
  cases r with
  | error err => exact .inl ⟨⟨err, rfl⟩, (execute_leaves hout e levels c hw h).2 err rfl⟩
  | ok status =>
    right
    obtain ⟨result, v, hattempts, h⟩ := runAlone_bind_eq_some.mp h
    obtain ⟨_, v₁, hv₁, h⟩ := runAlone_bind_eq_some.mp h
    obtain ⟨_, v₂, hv₂, h⟩ := runAlone_bind_eq_some.mp h
    obtain ⟨-, rfl⟩ := Prod.mk.inj (Option.some.inj hv₁)
    obtain ⟨-, rfl⟩ := Prod.mk.inj (Option.some.inj hv₂)
    obtain ⟨rfl, rfl⟩ := Prod.mk.inj (Option.some.inj h)
    obtain ⟨⟨err, herr⟩, -⟩ | ⟨status', u, hstatus, hu, hlast⟩ :=
      attempts_cases hout e levels c _ hw hattempts
    · exact absurd herr (by simp)
    obtain rfl := Except.ok.inj hstatus
    obtain ⟨state, x, v', hrun, hcommit, hsame⟩ := attempt_commits hlast
    refine ⟨status, u, state, rfl, hu.committed, ⟨x, v', hrun, hcommit, ?_⟩, ?_⟩
    · rw [committed_measure, committed_measure, hsame]
    intro top p after htop hway hfails
    obtain ⟨r', c', w', hend, hstaged, hpassed⟩ := htop.ends hrun
    obtain ⟨hcases, hafter⟩ := hfails.fails_or_goesOn hway hend
    refine ⟨hcases.resolve_left ?_, hafter.trans hstaged⟩
    rintro ⟨err, herr, hother⟩
    exact absurd (hpassed err herr hother) (by simp)

/-! ### A handler that goes on -/

/-- A handler that runs a command inside of its own, and may go on if it fails; and handlers that
take some steps and fail then. -/
def failingInside (goOn : Bool) (steps : List ScriptStep) : Engine scriptInterface where
  settings := .standard
  handlers
    | .updateIncomingCertificate =>
      Script.handler 0 [⟨.execute ⟨1, some 0, none, .fixed (.revokeIncomingCertificate "key")⟩ goOn,
        none, none⟩]
    | _ =>
      Script.handler 1 (steps.map (⟨·, none, none⟩) ++ [⟨.fail (.custom "failed"), none, none⟩])
  listeners := []

/-- The command that another one is run inside of. -/
def around : Command :=
  ⟨⟨1, 0⟩, .system, .updateIncomingCertificate "key" ⟨[⟨64496, 64511⟩], [], []⟩⟩

/-- The command inside has the records of the authority marked as deleted before it fails, and the
handler goes on. So the records will be marked. -/
theorem execute_undone_or_caught_deleting :
    ∃ status w' u state,
      World.execute Script.answer (failingInside true [.deleteRecords]) 2 around withAuthority =
        some (.ok status, w') ∧
      (failingInside true [.deleteRecords]).Commits Script.answer 2 around u status state w' ∧
      [1] <+: state.deletions ∧
      ∃ top q, (failingInside true [.deleteRecords]).Handled Script.answer around
          (RunState.new u.store.begin.1 (contextOf around)) { u with store := u.store.begin.2 } 2
          top ∧
        Relation.ReflTransGen
          (Activation.Starts Script.answer (failingInside true [.deleteRecords])) top q ∧
        q.GoesOn Script.answer (failingInside true [.deleteRecords]) := by
  have hcompute : ((World.execute Script.answer (failingInside true [.deleteRecords]) 2 around
      withAuthority).map fun p => p.1.isOk) = some true := by
    decide +kernel
  obtain ⟨⟨r, w'⟩, h, hok⟩ := Option.map_eq_some_iff.mp hcompute
  rcases execute_undone_or_caught Outside.orderly_script reachable_withAuthority h with
    ⟨⟨err, rfl⟩, -⟩ | ⟨status, u, state, rfl, -, hcommits, hall⟩
  · exact absurd hok (by simp [Except.isOk, Except.toBool])
  · have hother : CommandError.custom "failed" ≠ .noEffect := by decide
    obtain ⟨⟨q, hq, -, hgoes⟩, hstaged⟩ := hall _ _ _ (.intro rfl) .refl
      (.intro (.later rfl .now) hother rfl)
    exact ⟨status, w', u, state, h, hcommits, hstaged.2, _, q, .intro rfl, hq, hgoes⟩

/-- The errors after which scripts went on. -/
def failures (w : World ScriptState) : List CommandError :=
  w.outside.notes.filterMap fun
    | .failure err => some err
    | _ => none

/-- **What a command has staged before it failed is not undone if somebody goes on.** The handler
does nothing but run the command inside, which fails. If this one marks the authority as updated
before that, then the authority is marked in the end, and at the next version. If it does not, then
the authority is what it was. -/
theorem not_undone_when_caught :
    ∃ w' u',
      World.execute Script.answer (failingInside true [.markUpdated]) 2 around withAuthority =
        some (.ok ⟨true, ⟨1, 1⟩⟩, w') ∧
      World.execute Script.answer (failingInside true []) 2 around withAuthority =
        some (.ok ⟨true, ⟨1, 0⟩⟩, u') ∧
      failures w' = [.custom "failed"] ∧ failures u' = [.custom "failed"] ∧
      (w'.store.get? 1).map (fun ca => (ca.version, ca.configurationUpdated)) = some (1, true) ∧
      (u'.store.get? 1).map (fun ca => (ca.version, ca.configurationUpdated)) =
        some (0, false) := by
  have hend : ∀ steps status seen, ((World.execute Script.answer (failingInside true steps) 2 around
      withAuthority).map fun p => (p.1.toOption, failures p.2,
        (p.2.store.get? 1).map fun ca => (ca.version, ca.configurationUpdated))) =
          some (some status, [.custom "failed"], some seen) →
      ∃ w', World.execute Script.answer (failingInside true steps) 2 around withAuthority =
          some (.ok status, w') ∧ failures w' = [.custom "failed"] ∧
        (w'.store.get? 1).map (fun ca => (ca.version, ca.configurationUpdated)) = some seen := by
    intro steps status seen hcompute
    obtain ⟨⟨r, w'⟩, hrun, hfound⟩ := Option.map_eq_some_iff.mp hcompute
    obtain ⟨hstatus, hfound⟩ := Prod.mk.inj hfound
    obtain ⟨hfailures, hseen⟩ := Prod.mk.inj hfound
    cases r with
    | error err => exact absurd hstatus (by simp [Except.toOption])
    | ok status' =>
      obtain rfl := Option.some.inj hstatus
      exact ⟨w', hrun, hfailures, hseen⟩
  obtain ⟨w', hw, hfailures, hseen⟩ :=
    hend [.markUpdated] ⟨true, ⟨1, 1⟩⟩ (1, true) (by decide +kernel)
  obtain ⟨u', hu, hfailures', hseen'⟩ := hend [] ⟨true, ⟨1, 0⟩⟩ (0, false) (by decide +kernel)
  exact ⟨w', u', hw, hu, hfailures, hfailures', hseen, hseen'⟩

end Engine

end RpkiAuthority
