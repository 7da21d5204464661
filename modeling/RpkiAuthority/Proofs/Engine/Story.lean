import RpkiAuthority.Proofs.Engine.Caught

/-!
# The story of a command

While a command runs there are events and other commands, one after the other and one inside the
other. A `Story` has them all in order, each command with its own story inside. It is told of the
programs of handlers and listeners and of the answers that they get (`Engine.teller`), and says
nothing about how lists of events and records are kept. Who an event belongs to is plain from where
it stands in the story: to the command that it is told of and not to one further inside
(`Story.events`).

Running a command keeps to its story (`Engine.truthful_nesting`): it adds the events of the story to
the list of the innermost command, and puts off the records of those commands in the story of which
there is to be one, inner before outer (`Story.recorded`).
-/

namespace RpkiAuthority

open World

/-- **What happened while a program was run**, in order. -/
inductive Story where
  | nothing
  /-- An event was published or recorded. -/
  | event (event : AuthorityEvent) (next : Story)
  /-- A command was run. What happened in the meantime is the story inside. -/
  | command (c : Command) (inside : Story) (result : Except CommandError CommandStatus)
      (next : Story)

namespace Story

/-- One story after the other. -/
def append : Story → Story → Story
  | nothing, t => t
  | event ev next, t => event ev (next.append t)
  | command c inside result next, t => command c inside result (next.append t)

instance : Append Story := ⟨append⟩

/-- The events of a story, without those of the commands inside. -/
def events : Story → List AuthorityEvent
  | nothing => []
  | event ev next => ev :: next.events
  | command _ _ _ next => next.events

/-- The record of a command with its events. There is one if the command had an effect and was sent
by a user or led to events. -/
def ownRecord (c : Command) (events : List AuthorityEvent) :
    Except CommandError CommandStatus → List (Command × List AuthorityEvent)
  | .ok status =>
    if status.hasEffect = true ∧ (c.group = .user ∨ events ≠ []) then [(c, events)] else []
  | .error _ => []

/-- The commands in a story of which there are records, in the order in which they ended, with the
events of each. -/
def recorded : Story → List (Command × List AuthorityEvent)
  | nothing => []
  | event _ next => next.recorded
  | command c inside result next =>
    inside.recorded ++ ownRecord c inside.events result ++ next.recorded

@[simp] theorem events_append (t t' : Story) : (t ++ t').events = t.events ++ t'.events := by
  induction t with
  | nothing => rfl
  | event ev next ih => exact congrArg (ev :: ·) ih
  | command c inside result next _ ih => exact ih

@[simp] theorem recorded_append (t t' : Story) :
    (t ++ t').recorded = t.recorded ++ t'.recorded := by
  induction t with
  | nothing => rfl
  | event ev next ih => exact ih
  | command c inside result next _ ih =>
    show inside.recorded ++ ownRecord c inside.events result ++ (next ++ t').recorded = _
    rw [ih, ← List.append_assoc]
    rfl

end Story

variable {X : Interface} {S : Type}

/-! ### Telling stories -/

/-- How stories are told of commands that are run and of events that are delivered, inside of
others. -/
structure Storyteller (X : Interface) (S : Type) where
  run : Command → RunState X → World S → Story
  deliver : AuthorityEvent → RunState X → World S → Story

namespace Engine

section Telling

variable (outside : Outside X S) (e : Engine X) (inside : Nesting X) (tell : Storyteller X S)

/-- The story of the answer to a question. -/
def answerStory (q : ActionQuery X) (s : RunState X) (w : World S) : Story :=
  match q with
  | .publish ev => .event ev (tell.deliver ev (s.noteEvent ev) w)
  | .record ev => .event ev .nothing
  | .execute c => tell.run c s w
  | _ => .nothing

/-- The story of a program: the answers to its questions, one after the other. -/
def programStory {α : Type} :
    Dialogue (actionInterface X) α → RunState X → World S → Story
  | .done _, _, _ => .nothing
  | .ask q next, s, w =>
    answerStory tell q s w ++
      (runAlone outside ((e.answer inside q).run s) w).elim .nothing fun p =>
        programStory (next p.1.1) p.1.2 p.2

/-- The story of a delivery: what the listeners do, one after the other. -/
def deliveryStory (ev : AuthorityEvent) : List (Listener X) → RunState X → World S → Story
  | [], _, _ => .nothing
  | listener :: rest, s, w =>
    programStory outside e inside tell (listener ev).run s w ++
      match runAlone outside ((e.act inside (listener ev)).run s) w with
      | some ((.ok _, s₁), w₁) => deliveryStory ev rest s₁ w₁
      | _ => .nothing

/-- The story of what a handler does, unless its command is refused. -/
def handlerStory (c : Command) (s : RunState X) (w : World S) : Story :=
  match runAlone outside ((checkVersion c).run s) w with
  | some ((.ok _, s₁), w₁) =>
    programStory outside e inside tell (e.handlers c.type c).run (s₁.entered e) w₁
  | _ => .nothing

/-- The story of a command: itself, with what its handler does inside. -/
def commandStory (c : Command) (s : RunState X) (w : World S) : Story :=
  match runAlone outside ((e.run inside c).run s) w with
  | some ((result, _), _) => .command c (handlerStory outside e inside tell c s w) result .nothing
  | none => .nothing

end Telling

/-- **The stories of commands and deliveries** with a number of levels below them. -/
def teller (outside : Outside X S) (e : Engine X) : Nat → Storyteller X S
  | 0 => ⟨fun _ _ _ => .nothing, fun _ _ _ => .nothing⟩
  | levels + 1 =>
    ⟨commandStory outside e (e.nesting levels) (teller outside e levels),
      fun ev s w => deliveryStory outside e (e.nesting levels) (teller outside e levels) ev
        s.scope.listeners s w⟩

end Engine

/-! ### Keeping to a story -/

namespace RunState

/-- Lists of events after more were added to the innermost one. -/
def noted : List (List String) → List String → List (List String)
  | [], _ => []
  | frame :: outer, texts => (frame ++ texts) :: outer

theorem noted_nil (frames : List (List String)) : noted frames [] = frames := by
  cases frames with
  | nil => rfl
  | cons frame outer => rw [noted, List.append_nil]

theorem noted_noted (frames : List (List String)) (texts texts' : List String) :
    noted (noted frames texts) texts' = noted frames (texts ++ texts') := by
  cases frames with
  | nil => rfl
  | cons frame outer => simp only [noted, List.append_assoc]

/-- **A state follows from a story**: the events of the story were added to those of the innermost
command, and the records of the story to those that were put off before. -/
structure Follows (t : Story) (s s' : RunState X) : Prop where
  frames : s'.frames = noted s.frames (t.events.map AuthorityEvent.text)
  records : s'.records.map (fun r => (r.command, r.events)) =
    s.records.map (fun r => (r.command, r.events)) ++
      t.recorded.map fun p => (p.1, p.2.map AuthorityEvent.text)

variable {s s₁ s₂ : RunState X} {t t' : Story}

/-- Nothing happened. -/
theorem Follows.of_same (hframes : s₁.frames = s.frames) (hrecords : s₁.records = s.records) :
    Follows .nothing s s₁ :=
  ⟨hframes.trans (noted_nil s.frames).symm, by rw [hrecords]; exact (List.append_nil _).symm⟩

/-- One thing happened after the other. -/
theorem Follows.trans (h : Follows t s s₁) (h' : Follows t' s₁ s₂) : Follows (t ++ t') s s₂ := by
  refine ⟨?_, ?_⟩
  · rw [h'.frames, h.frames, noted_noted, Story.events_append, List.map_append]
  · rw [h'.records, h.records, Story.recorded_append, List.map_append, List.append_assoc]

theorem follows_noteEvent (s : RunState X) (ev : AuthorityEvent) :
    Follows (.event ev .nothing) s (s.noteEvent ev) := by
  cases h : s.frames with
  | nil => exact ⟨by simp [noteEvent, h, noted], by simp [noteEvent, h, Story.recorded]⟩
  | cons frame outer =>
    exact ⟨by simp [noteEvent, h, noted, Story.events], by simp [noteEvent, h, Story.recorded]⟩

end RunState

/-- **Stories are truthful** if running commands and delivering events keep to them. -/
structure Storyteller.Truthful (outside : Outside X S) (inside : Nesting X)
    (tell : Storyteller X S) : Prop where
  run : ∀ {c s w r s' w'}, runAlone outside ((inside.run c).run s) w = some ((r, s'), w') →
    RunState.Follows (tell.run c s w) s s'
  deliver : ∀ {ev s w r s' w'},
    runAlone outside ((inside.deliver ev).run s) w = some ((r, s'), w') →
      RunState.Follows (tell.deliver ev s w) s s'

namespace Engine

open Running RunState

variable {outside : Outside X S} {e : Engine X}

/-- Quiet questions neither note events nor put off records. -/
theorem eventless_quiet (outside : Outside X S) :
    Running.Relation.Quiet outside fun (s : RunState X) _ s' _ =>
      s'.frames = s.frames ∧ s'.records = s.records :=
  Running.Relation.Sequential.quiet
    { refl := fun _ _ => ⟨rfl, rfl⟩
      trans := fun _ _ _ _ _ _ h h' => ⟨h'.1.trans h.1, h'.2.trans h.2⟩ }
    fun _ _ _ _ _ => ⟨rfl, rfl⟩

/-- **The end of a command**: a record is put off if there is to be one. -/
theorem runAlone_wrapUp {c : Command} {result : Except CommandError Unit}
    {events : List AuthorityEvent} {s s' : RunState X} {w w' : World S}
    {r : Except CommandError CommandStatus}
    (h : runAlone outside ((wrapUp c result (events.map AuthorityEvent.text)).run s) w =
      some ((r, s'), w')) :
    s'.frames = s.frames ∧
      s'.records.map (fun r => (r.command, r.events)) =
        s.records.map (fun r => (r.command, r.events)) ++
          (Story.ownRecord c events r).map fun p => (p.1, p.2.map AuthorityEvent.text) := by
  -- only a command that ends without an error and with an effect puts off a record
  have hversion : ∀ {version s₁ w₁},
      runAlone outside ((versionAfter c).run s) w = some ((version, s₁), w₁) →
        s₁.frames = s.frames ∧ s₁.records = s.records :=
    fun h => keeps_versionAfter_bind (eventless_quiet outside)
      (fun s _ _ => keeps_pure (eventless_quiet outside).toSequential _ s) s
      (by rw [bind_pure]; exact h)
  cases result with
  | error err =>
    by_cases herr : err = .noEffect
    · subst herr
      obtain ⟨⟨version, s₁⟩, w₁, hrun, hend⟩ := runAlone_bind_eq_some.mp h
      obtain ⟨hsame, -⟩ := Prod.mk.inj (Option.some.inj hend)
      obtain ⟨rfl, rfl⟩ := Prod.mk.inj hsame
      obtain ⟨hframes, hrecords⟩ := hversion hrun
      exact ⟨hframes, by rw [hrecords]; simp [Story.ownRecord]⟩
    · rw [wrapUp_error c herr] at h
      obtain ⟨hsame, -⟩ := Prod.mk.inj (Option.some.inj h)
      obtain ⟨rfl, rfl⟩ := Prod.mk.inj hsame
      exact ⟨rfl, by simp [Story.ownRecord]⟩
  | ok _ =>
    obtain ⟨⟨version, s₁⟩, w₁, hrun, hend⟩ := runAlone_bind_eq_some.mp h
    obtain ⟨hframes, hrecords⟩ := hversion hrun
    by_cases hkept : c.group = .user ∨ events ≠ []
    · have hif : c.group = .user ∨ (!(events.map AuthorityEvent.text).isEmpty) = true := by
        simpa using hkept
      dsimp only at hend
      rw [if_pos hif] at hend
      obtain ⟨hsame, -⟩ := Prod.mk.inj (Option.some.inj hend)
      obtain ⟨rfl, rfl⟩ := Prod.mk.inj hsame
      refine ⟨hframes, ?_⟩
      simp [Story.ownRecord, hkept, hrecords]
    · have hif : ¬(c.group = .user ∨ (!(events.map AuthorityEvent.text).isEmpty) = true) := by
        simpa using hkept
      dsimp only at hend
      rw [if_neg hif] at hend
      obtain ⟨hsame, -⟩ := Prod.mk.inj (Option.some.inj hend)
      obtain ⟨rfl, rfl⟩ := Prod.mk.inj hsame
      refine ⟨hframes, ?_⟩
      simp [Story.ownRecord, hkept, hrecords]

/-- The story of a program that has got an answer. -/
theorem programStory_ask {inside : Nesting X} (tell : Storyteller X S) {α : Type}
    {q : ActionQuery X} {next : (actionInterface X).Reply q → Dialogue (actionInterface X) α}
    {s s₁ : RunState X} {w w₁ : World S} {r : (actionInterface X).Reply q}
    (h : runAlone outside ((e.answer inside q).run s) w = some ((r, s₁), w₁)) :
    programStory outside e inside tell (.ask q next) s w =
      answerStory tell q s w ++ programStory outside e inside tell (next r) s₁ w₁ :=
  congrArg (fun answered => answerStory tell q s w ++ answered.elim .nothing fun p =>
    programStory outside e inside tell (next p.1.1) p.1.2 p.2) h

section Inside

variable {inside : Nesting X} {tell : Storyteller X S} (htell : tell.Truthful outside inside)

include htell

theorem follows_answer {q : ActionQuery X} {s s' : RunState X} {w w' : World S}
    {r : (actionInterface X).Reply q}
    (h : runAlone outside ((e.answer inside q).run s) w = some ((r, s'), w')) :
    Follows (answerStory tell q s w) s s' := by
  by_cases hq : q.IsQuiet
  · obtain ⟨hframes, hrecords⟩ := keeps_quiet_answer (eventless_quiet outside) e inside hq s h
    cases q with
    | publish | record | execute => exact hq.elim
    | _ => exact .of_same hframes hrecords
  · cases q with
    | publish ev => exact (follows_noteEvent s ev).trans (htell.deliver h)
    | record ev =>
      obtain ⟨hsame, -⟩ := Prod.mk.inj (Option.some.inj h)
      obtain ⟨-, rfl⟩ := Prod.mk.inj hsame
      exact follows_noteEvent s ev
    | execute c => exact htell.run h
    | _ => exact absurd trivial hq

/-- **A program keeps to its story.** The induction is on the program: after an answer the rest of
it is a smaller program, with the rest of the story. -/
theorem follows_program {α : Type} {program : Dialogue (actionInterface X) α} {a : α}
    {s s' : RunState X} {w w' : World S}
    (h : runAlone outside ((program.conduct (e.answer inside)).run s) w = some ((a, s'), w')) :
    Follows (programStory outside e inside tell program s w) s s' := by
  induction program generalizing s w with
  | done a =>
    obtain ⟨hsame, -⟩ := Prod.mk.inj (Option.some.inj h)
    obtain ⟨-, rfl⟩ := Prod.mk.inj hsame
    exact .of_same rfl rfl
  | ask q next ih =>
    obtain ⟨⟨r, s₁⟩, w₁, hanswer, hrest⟩ := runAlone_bind_eq_some.mp h
    rw [programStory_ask _ hanswer]
    exact (follows_answer htell hanswer).trans (ih r hrest)

theorem follows_delivery {ev : AuthorityEvent} {listeners : List (Listener X)}
    {s s' : RunState X} {w w' : World S} {r : Except CommandError Unit}
    (h : runAlone outside ((e.deliverTo inside ev listeners).run s) w = some ((r, s'), w')) :
    Follows (deliveryStory outside e inside tell ev listeners s w) s s' := by
  induction listeners generalizing s w with
  | nil =>
    obtain ⟨hsame, -⟩ := Prod.mk.inj (Option.some.inj h)
    obtain ⟨-, rfl⟩ := Prod.mk.inj hsame
    exact .of_same rfl rfl
  | cons listener rest ih =>
    rw [deliverTo, StateT.run_bind] at h
    obtain ⟨⟨result, s₁⟩, w₁, hact, hrest⟩ := runAlone_bind_eq_some.mp h
    rw [deliveryStory, hact]
    cases result with
    | ok _ => exact (follows_program htell hact).trans (ih hrest)
    | error err =>
      obtain ⟨hsame, -⟩ := Prod.mk.inj (Option.some.inj hrest)
      obtain ⟨-, rfl⟩ := Prod.mk.inj hsame
      exact (follows_program htell hact).trans (.of_same rfl rfl)

/-- **A command keeps to its story**: its own events were on a list of their own and are gone, or in
its record. -/
theorem follows_command {c : Command} {s s' : RunState X} {w w' : World S}
    {r : Except CommandError CommandStatus}
    (h : runAlone outside ((e.run inside c).run s) w = some ((r, s'), w')) :
    Follows (commandStory outside e inside tell c s w) s s' := by
  have hquiet := eventless_quiet (X := X) outside
  rw [commandStory, h]
  dsimp only
  rw [run_eq, StateT.run_bind] at h
  obtain ⟨⟨checked, s₁⟩, w₁, hcheck, hrest⟩ := runAlone_bind_eq_some.mp h
  obtain ⟨hframes, hrecords⟩ := keeps_checkVersion hquiet c s hcheck
  rw [handlerStory, hcheck]
  cases checked with
  | error err =>
    obtain ⟨hsame, -⟩ := Prod.mk.inj (Option.some.inj hrest)
    obtain ⟨rfl, rfl⟩ := Prod.mk.inj hsame
    have hsame := Follows.of_same hframes hrecords
    exact ⟨hsame.frames, hsame.records⟩
  | ok _ =>
    replace hrest : runAlone outside
        ((e.handle inside c >>= fun p => wrapUp c p.1 p.2).run s₁) w₁ = some ((r, s'), w') := hrest
    rw [StateT.run_bind] at hrest
    obtain ⟨⟨⟨result, texts⟩, s₂⟩, w₂, hhandle, hwrap⟩ := runAlone_bind_eq_some.mp hrest
    obtain ⟨s₃, hact, htexts, rfl⟩ := runAlone_handle hhandle
    dsimp only at hact htexts hwrap ⊢
    have hfollows := follows_program htell hact
    generalize programStory outside e inside tell (e.handlers c.type c).run (s₁.entered e) w₁ = t
      at hfollows ⊢
    have hown : s₃.frames = t.events.map AuthorityEvent.text :: s₁.frames := hfollows.frames
    -- what was noted is the list of events that the command ends with
    rw [hown, List.headD_cons] at htexts
    rw [htexts] at hwrap
    obtain ⟨hframes', hrecords'⟩ := runAlone_wrapUp hwrap
    refine ⟨?_, ?_⟩
    · rw [hframes', Story.events, Story.events, List.map_nil, noted_nil, ← hframes]
      exact congrArg (List.drop 1) hown
    · have hinner := hfollows.records
      rw [hrecords', Story.recorded, Story.recorded, List.append_nil, List.map_append,
        ← List.append_assoc, ← hrecords]
      exact congrArg (· ++ _) hinner

end Inside

/-- **Stories are truthful**, with any handlers and listeners and any number of levels of
nesting. -/
theorem truthful_nesting (outside : Outside X S) (e : Engine X) (levels : Nat) :
    (teller outside e levels).Truthful outside (e.nesting levels) := by
  induction levels with
  | zero =>
    exact ⟨fun h => absurd h (Option.some_ne_none _).symm,
      fun h => absurd h (Option.some_ne_none _).symm⟩
  | succ levels ih => exact ⟨fun h => follows_command ih h, fun h => follows_delivery ih h⟩

end Engine

end RpkiAuthority
