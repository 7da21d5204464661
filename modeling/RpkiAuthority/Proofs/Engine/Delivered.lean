import RpkiAuthority.Proofs.Engine.Audience
import RpkiAuthority.Proofs.Engine.Caught

/-!
# Events get to all listeners

A command can be run inside of another one at any time, and its handler and the listeners of its
events can do the same. Whatever they do, a command that has ended leaves what surrounds it as it
was: the lists of events of the commands that are still running, and the audiences
(`RunState.Returned`). While a command is at work only its own list of events changes
(`RunState.Advanced`).

So the audience of a command at work is always the one that it has entered, and it consists of all
listeners of the engine. An event that is published is therefore delivered to each of them, to the
one registered last first, and to the rest as long as none has failed (`Engine.Hears`). This is true
of every handler and listener at work below a command that comes to its end
(`Engine.served_of_runAlone`).
-/

namespace RpkiAuthority

open World

variable {X : Interface} {S : Type}

namespace RunState

/-! ### What surrounds a command -/

/-- **A command has ended**: no list of events has changed, and the audiences are kept. -/
def Returned (c c' : RunState X) : Prop :=
  c'.frames = c.frames ∧ (c.scope.Sound → c.scope.Kept c'.scope)

/-- **A command is at work**: no list of events has changed but its own, and the audiences are
kept. -/
def Advanced (c c' : RunState X) : Prop :=
  (c'.frames.length = c.frames.length ∧ c'.frames.drop 1 = c.frames.drop 1) ∧
    (c.scope.Sound → c.scope.Kept c'.scope)

variable {c c₁ c₂ c₃ : RunState X}

theorem Returned.advanced (h : Returned c₁ c₂) : Advanced c₁ c₂ :=
  ⟨⟨congrArg List.length h.1, congrArg (List.drop 1) h.1⟩, h.2⟩

theorem Advanced.sound (h : Advanced c₁ c₂) (hs : c₁.scope.Sound) : c₂.scope.Sound :=
  (h.2 hs).sound hs

theorem Advanced.trans (h : Advanced c₁ c₂) (h' : Advanced c₂ c₃) : Advanced c₁ c₃ :=
  ⟨⟨h'.1.1.trans h.1.1, h'.1.2.trans h.1.2⟩, fun hs => (h.2 hs).trans (h'.2 (h.sound hs))⟩

/-- **A state has its place**: the audience is that of the listeners of the engine. -/
def Placed (e : Engine X) (c : RunState X) : Prop :=
  c.scope.Sound ∧ c.scope.listeners = e.listeners.reverse

theorem Advanced.placed {e : Engine X} (h : Advanced c₁ c₂) (hplaced : c₁.Placed e) :
    c₂.Placed e :=
  ⟨h.sound hplaced.1, ((h.2 hplaced.1).listeners hplaced.1).trans hplaced.2⟩

/-- A handler has its place when it starts. -/
theorem placed_entered (e : Engine X) (h : c.scope.Sound) : (c.entered e).Placed e :=
  ⟨Engine.sound_subscribeAll e.listeners h, Engine.listeners_subscribeAll e.listeners h⟩

/-- An event is added to the list of the innermost command. -/
theorem advanced_noteEvent (c : RunState X) (event : AuthorityEvent) :
    Advanced c (c.noteEvent event) := by
  refine ⟨?_, fun _ => ?_⟩
  · cases h : c.frames <;> simp [noteEvent, h]
  · rw [noteEvent_scope]
    exact .refl _

/-- **A command leaves what surrounds it as it was** if its handler only works on its own list of
events. -/
theorem Advanced.returned {e : Engine X} (h : Advanced (c₁.entered e) c₂) :
    Returned c₁ (c₁.left e c₂) :=
  ⟨h.1.2, fun hs => Engine.kept_of_left e.listeners hs
    (h.2 (Engine.sound_subscribeAll e.listeners hs))⟩

theorem returned_quiet (outside : Outside X S) :
    Running.Relation.Quiet outside fun c _ c' _ => Returned c c' :=
  Running.Relation.Sequential.quiet
    { refl := fun _ _ => ⟨rfl, fun _ => .refl _⟩
      trans := fun _ _ _ _ _ _ h h' =>
        ⟨h'.1.trans h.1, fun hs => (h.2 hs).trans (h'.2 ((h.2 hs).sound hs))⟩ }
    fun _ _ _ _ _ => ⟨rfl, fun _ => .refl _⟩

theorem advanced_quiet (outside : Outside X S) :
    Running.Relation.Quiet outside fun c _ c' _ => Advanced c c' :=
  Running.Relation.Sequential.quiet
    { refl := fun _ _ => ⟨⟨rfl, rfl⟩, fun _ => .refl _⟩
      trans := fun _ _ _ _ _ _ => .trans }
    fun _ _ _ _ _ => ⟨⟨rfl, rfl⟩, fun _ => .refl _⟩

end RunState

namespace Engine

open Running RunState

variable {outside : Outside X S} {e : Engine X}

section Inside

variable {inside : Nesting X}
  (hrun : ∀ c, Keeps outside (fun s _ s' _ => Returned s s') (inside.run c))
  (hdeliver : ∀ ev, Keeps outside (fun s _ s' _ => Advanced s s') (inside.deliver ev))

include hrun hdeliver

/-- Whatever a handler or listener asks for, only the list of events of its own command changes. -/
theorem advanced_answer (q : ActionQuery X) :
    Keeps outside (fun s _ s' _ => Advanced s s') (e.answer inside q) := by
  have hquiet := advanced_quiet (X := X) outside
  cases q with
  | publish event =>
    refine keeps_bind hquiet.toSequential ?_ fun _ => hdeliver event
    exact keeps_modify fun s _ => advanced_noteEvent s event
  | record event => exact keeps_modify fun s _ => advanced_noteEvent s event
  | execute command => exact fun s _ _ _ _ h => (hrun command s h).advanced
  | _ => exact keeps_quiet_answer hquiet e inside trivial

theorem returned_run (c : Command) :
    Keeps outside (fun s _ s' _ => Returned s s') (e.run inside c) := by
  have hquiet := returned_quiet (X := X) outside
  have hact := keeps_act (advanced_quiet (X := X) outside).toSequential e inside
    (advanced_answer hrun hdeliver) (e.handlers c.type c)
  rw [run_eq]
  refine keeps_bind hquiet.toSequential (keeps_checkVersion hquiet c) fun checked => ?_
  cases checked with
  | error err => exact keeps_pure hquiet.toSequential _
  | ok _ =>
    refine keeps_bind hquiet.toSequential ?_ fun p => ?_
    · intro s w p s' w' h
      obtain ⟨s₁, hhandler, -, rfl⟩ := runAlone_handle h
      exact (hact _ hhandler).returned
    · exact keeps_wrapUp hquiet (fun s w _ _ _ => hquiet.refl s w) p.1 p.2

end Inside

/-- **A command that has ended leaves what surrounds it as it was**, with any handlers and listeners
and at any level. The induction is on the levels. -/
theorem returned_nesting (outside : Outside X S) (e : Engine X) (levels : Nat) :
    (∀ c, Keeps outside (fun s _ s' _ => Returned s s') ((e.nesting levels).run c)) ∧
      ∀ ev, Keeps outside (fun s _ s' _ => Advanced s s') ((e.nesting levels).deliver ev) := by
  induction levels with
  | zero => exact ⟨fun _ => keeps_stuck _, fun _ => keeps_stuck _⟩
  | succ levels ih =>
    refine ⟨fun c => returned_run ih.1 ih.2 c, fun ev => ?_⟩
    exact keeps_get_bind fun s => keeps_deliverTo (advanced_quiet outside).toSequential e
      (advanced_answer ih.1 ih.2) ev _ s

/-- When a handler or listener comes to a question, only the list of events of its own command has
changed. -/
theorem Asks.advanced {levels : Nat} {α : Type} {q : ActionQuery X}
    {program : Dialogue (actionInterface X) α} {s s₀ : RunState X} {w w₀ : World S}
    (h : e.Asks outside (e.nesting levels) q s w program s₀ w₀) : Advanced s₀ s := by
  obtain ⟨hrun, hdeliver⟩ := returned_nesting outside e levels
  induction h with
  | now => exact (advanced_quiet outside).refl s w
  | later answered _ ih => exact (advanced_answer hrun hdeliver _ _ answered).trans ih

/-! ### Deliveries -/

/-- **Listeners hear of an event**, one after the other, up to the first that fails. Its error is
the result of the delivery. -/
inductive Hears (outside : Outside X S) (e : Engine X) (levels : Nat) (event : AuthorityEvent) :
    List (Listener X) → RunState X → World S →
      Except CommandError Unit → RunState X → World S → Prop
  | all {s : RunState X} {w : World S} : Hears outside e levels event [] s w (.ok ()) s w
  | next {listener : Listener X} {rest : List (Listener X)} {s s₁ s₂ : RunState X}
      {w w₁ w₂ : World S} {r : Except CommandError Unit}
      (heard : Activation.Ends outside e ⟨levels, listener event, s, w⟩ (.ok ()) s₁ w₁)
      (later : Hears outside e levels event rest s₁ w₁ r s₂ w₂) :
      Hears outside e levels event (listener :: rest) s w r s₂ w₂
  | failed {listener : Listener X} {rest : List (Listener X)} {s s₁ : RunState X}
      {w w₁ : World S} {err : CommandError}
      (heard : Activation.Ends outside e ⟨levels, listener event, s, w⟩ (.error err) s₁ w₁) :
      Hears outside e levels event (listener :: rest) s w (.error err) s₁ w₁

/-- Delivering an event to listeners is what they hear of it. -/
theorem hears_of_deliverTo {levels : Nat} {event : AuthorityEvent} {listeners : List (Listener X)}
    {s s' : RunState X} {w w' : World S} {r : Except CommandError Unit}
    (h : runAlone outside ((e.deliverTo (e.nesting levels) event listeners).run s) w =
      some ((r, s'), w')) : e.Hears outside levels event listeners s w r s' w' := by
  induction listeners generalizing s w with
  | nil =>
    obtain ⟨hsame, rfl⟩ := Prod.mk.inj (Option.some.inj h)
    obtain ⟨rfl, rfl⟩ := Prod.mk.inj hsame
    exact .all
  | cons listener rest ih =>
    rw [deliverTo, StateT.run_bind] at h
    obtain ⟨⟨result, s₁⟩, w₁, hact, hrest⟩ := runAlone_bind_eq_some.mp h
    cases result with
    | ok _ => exact .next hact (ih hrest)
    | error err =>
      obtain ⟨hsame, rfl⟩ := Prod.mk.inj (Option.some.inj hrest)
      obtain ⟨rfl, rfl⟩ := Prod.mk.inj hsame
      exact .failed hact

end Engine

/-! ### Handlers and listeners at work -/

namespace Activation

open RunState

variable {outside : Outside X S} {e : Engine X} {p p' : Activation X S}

/-- When a handler or listener in its place asks for something, the audience is still the same. -/
theorem Asks.placed {q : ActionQuery X} {s : RunState X} {w : World S}
    (asked : p.Asks outside e q s w) (h : p.state.Placed e) : s.Placed e :=
  (Engine.Asks.advanced asked).placed h

/-- A handler has its place, wherever its command is run. -/
theorem placed_of_handled {c : Command} {s : RunState X} {w : World S} {levels : Nat}
    (hs : s.scope.Sound) (h : e.Handled outside c s w levels p) : p.state.Placed e := by
  obtain ⟨checked⟩ := h
  have hchecked := Engine.keeps_checkVersion (returned_quiet outside) c s checked
  exact placed_entered e ((hchecked.2 hs).sound hs)

/-- A listener has its place if the audience was that of the listeners before the delivery. -/
theorem placed_of_notified {event : AuthorityEvent} {s : RunState X} {w : World S} {levels : Nat}
    (hs : s.Placed e) (h : e.Notified outside event s w levels p) : p.state.Placed e := by
  obtain @⟨levels, before, after, listener, s₁, w₁, subscribed, heard⟩ := h
  obtain ⟨hrun, hdeliver⟩ := Engine.returned_nesting outside e levels
  -- the listeners before this one have changed their own list of events at most
  have hbefore := Engine.keeps_deliverTo (advanced_quiet outside).toSequential e
    (Engine.advanced_answer hrun hdeliver) event before s heard
  exact hbefore.placed hs

/-- **Whatever is set to work has its place** if what has set it to work does. -/
theorem Starts.placed (hstart : p.Starts outside e p') (h : p.state.Placed e) :
    p'.state.Placed e := by
  cases hstart with
  | command asked handled => exact placed_of_handled (asked.placed h).1 handled
  | event asked notified =>
    exact placed_of_notified ((advanced_noteEvent _ _).placed (asked.placed h)) notified

/-- **Everything at work below a command has its place**, at whatever depth. -/
theorem placed_below (hway : Relation.ReflTransGen (Starts outside e) p p')
    (h : p.state.Placed e) : p'.state.Placed e := by
  induction hway with
  | refl => exact h
  | tail _ hstart ih => exact hstart.placed ih

/-- Whatever is at work below a handler or listener comes to an end if that does. -/
theorem ends_below (hway : Relation.ReflTransGen (Starts outside e) p p')
    (hend : ∃ r s w, p.Ends outside e r s w) : ∃ r s w, p'.Ends outside e r s w := by
  induction hway with
  | refl => exact hend
  | tail _ hstart ih =>
    obtain ⟨r, s, w, hends⟩ := ih
    obtain ⟨r', s', w', hends', -⟩ := hstart.ends hends
    exact ⟨r', s', w', hends'⟩

/-- **What handlers and listeners can rely on.** An event that they publish is delivered to all
listeners of the engine, to the one registered last first, up to the first that fails; an event that
they record is noted and nothing else is done; and a command that they run comes to an end and
leaves what surrounds it as it was. -/
structure Served (outside : Outside X S) (e : Engine X) (p : Activation X S) : Prop where
  published : ∀ {event s w}, p.Asks outside e (.publish event) s w →
    ∃ levels r s' w', p.levels = levels + 1 ∧
      runAlone outside ((e.answer (e.nesting p.levels) (.publish event)).run s) w =
        some ((r, s'), w') ∧
      e.Hears outside levels event e.listeners.reverse (s.noteEvent event) w r s' w'
  recorded : ∀ {event s w}, p.Asks outside e (.record event) s w →
    runAlone outside ((e.answer (e.nesting p.levels) (.record event)).run s) w =
      some (((), s.noteEvent event), w)
  executed : ∀ {c s w}, p.Asks outside e (.execute c) s w →
    ∃ r s' w',
      runAlone outside ((e.answer (e.nesting p.levels) (.execute c)).run s) w =
        some ((r, s'), w') ∧
      s'.frames = s.frames ∧ s'.scope.depth = s.scope.depth ∧
      s'.scope.listeners = s.scope.listeners

theorem served_of_placed (h : p.state.Placed e) (hend : ∃ r s w, p.Ends outside e r s w) :
    p.Served outside e := by
  obtain ⟨result, s', w', hend⟩ := hend
  refine ⟨fun {event s w} asked => ?_, fun _ => rfl, fun {c s w} asked => ?_⟩
  · obtain ⟨r, s₁, w₁, hanswer, -⟩ := Engine.Asks.answered asked hend
    have hlisteners := (asked.placed h).2
    obtain ⟨levels, action, state, world⟩ := p
    cases levels with
    | zero => exact absurd hanswer (Option.some_ne_none _).symm
    | succ levels =>
      refine ⟨levels, r, s₁, w₁, rfl, hanswer, ?_⟩
      have hdelivered : runAlone outside ((e.deliverTo (e.nesting levels) event
          (s.noteEvent event).scope.listeners).run (s.noteEvent event)) w =
            some ((r, s₁), w₁) := hanswer
      rw [noteEvent_scope, hlisteners] at hdelivered
      exact Engine.hears_of_deliverTo hdelivered
  · obtain ⟨r, s₁, w₁, hanswer, -⟩ := Engine.Asks.answered asked hend
    have hsound := (asked.placed h).1
    obtain ⟨hframes, hkept⟩ := (Engine.returned_nesting outside e p.levels).1 c s hanswer
    exact ⟨r, s₁, w₁, hanswer, hframes, (hkept hsound).depth, (hkept hsound).listeners hsound⟩

end Activation

namespace Engine

open RunState

variable {outside : Outside X S} {e : Engine X}

/-- **Every event gets to every listener once, and nothing is left of a command around what it
was run inside of.** When a command has ended that was run in a new transaction, with any
handlers and listeners, no list of events and no audience is left, no listener is subscribed,
and a reset has nothing to drop. And until then every handler and listener at work below it, at
whatever depth, was served: each event that it published was delivered to all listeners of the
engine, to the one registered last first and up to the first that failed, no matter what they
and the commands before did; events that were only recorded were noted and delivered to nobody;
and each command that was run inside, whether it failed or not, left the lists of events, the
depth and the listeners as they were. -/
theorem served_of_runAlone {levels : Nat} {c : Command} {tx : Transaction CertificateAuthority}
    {context : LogContext} {s' : RunState X} {w w' : World S}
    {r : Except CommandError CommandStatus}
    (h : runAlone outside (((e.nesting levels).run c).run (RunState.new tx context)) w =
      some ((r, s'), w')) :
    (s'.frames = [] ∧ s'.scope.depth = 0 ∧ s'.scope.listeners = [] ∧
      (∀ a ∈ s'.scope.audiences, a.listeners = []) ∧ s'.scope.reset.1 = []) ∧
    ∀ top p, e.Handled outside c (RunState.new tx context) w levels top →
      Relation.ReflTransGen (Activation.Starts outside e) top p → p.Served outside e := by
  have hsound : (RunState.new (X := X) tx context).scope.Sound := Propagation.sound_new
  obtain ⟨hframes, hkept⟩ := (returned_nesting outside e levels).1 c _ h
  have hkept := hkept hsound
  refine ⟨⟨hframes, hkept.depth, hkept.listeners hsound, hkept.listeners_eq_nil,
    hkept.reset_eq_nil⟩, fun top p htop hway => ?_⟩
  obtain ⟨result, s₁, w₁, hend, -⟩ := htop.ends h
  exact Activation.served_of_placed
    (Activation.placed_below hway (Activation.placed_of_handled hsound htop))
    (Activation.ends_below hway ⟨result, s₁, w₁, hend⟩)

/-- A handler that runs a command inside of its own before it publishes an event, and one that
publishes an event and records another; with two listeners. -/
def reporting : Engine scriptInterface where
  settings := .standard
  handlers
    | .updateIncomingCertificate =>
      Script.handler 0 [
        ⟨.execute ⟨1, some 0, none, .fixed (.revokeIncomingCertificate "key")⟩ false, none, none⟩,
        ⟨.publish (.incomingCertificateUpdated ⟨1, 0⟩ "key" ⟨[⟨64496, 64511⟩], [], []⟩), none,
          none⟩]
    | _ =>
      Script.handler 1 [
        ⟨.publish (.incomingCertificateRevoked ⟨1, 0⟩ "key"), none, none⟩,
        ⟨.record (.incomingCertificateRevoked ⟨1, 0⟩ "other"), none, none⟩]
  listeners := [Script.recorder "first", Script.recorder "second"]

/-- Who has heard of events, with the number of commands running at that time. -/
def heard (w : World ScriptState) : List (String × Nat) :=
  w.outside.notes.filterMap fun
    | .heard listener depth _ => some (listener, depth)
    | _ => none

/-- Both listeners hear of the event of the command inside, and of the one that comes after it. -/
theorem served_of_runAlone_reporting :
    ∃ r s' w', runAlone Script.answer (((reporting.nesting 3).run around).run
        (RunState.new withAuthority.store.begin.1 (contextOf around))) withAuthority =
          some ((r, s'), w') ∧
      heard w' = [("second", 2), ("first", 2), ("second", 1), ("first", 1)] ∧
      s'.frames = [] ∧ s'.scope.listeners = [] ∧
      ∀ top p, reporting.Handled Script.answer around
          (RunState.new withAuthority.store.begin.1 (contextOf around)) withAuthority 3 top →
        Relation.ReflTransGen (Activation.Starts Script.answer reporting) top p →
        p.Served Script.answer reporting := by
  have hcompute : ((runAlone Script.answer (((reporting.nesting 3).run around).run
      (RunState.new withAuthority.store.begin.1 (contextOf around))) withAuthority).map fun p =>
        heard p.2) = some [("second", 2), ("first", 2), ("second", 1), ("first", 1)] := by
    decide +kernel
  obtain ⟨⟨⟨r, s'⟩, w'⟩, h, hheard⟩ := Option.map_eq_some_iff.mp hcompute
  obtain ⟨⟨hframes, -, hlisteners, -⟩, hserved⟩ := served_of_runAlone h
  exact ⟨r, s', w', h, hheard, hframes, hlisteners, hserved⟩

end Engine

end RpkiAuthority
