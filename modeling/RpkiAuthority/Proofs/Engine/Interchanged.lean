import Mathlib.Data.List.Forall2
import RpkiAuthority.Proofs.Engine.Blind
import RpkiAuthority.Proofs.Engine.Delivered
import RpkiAuthority.Proofs.Engine.Executed
import RpkiAuthority.Proofs.Engine.Maintainers
import RpkiAuthority.Proofs.Engine.Own
import RpkiAuthority.Proofs.Engine.Story

/-!
# Maintaining listeners that are interchanged

Two engines that differ in the order of the maintaining listeners only do the same with every
command, whatever its handler does. Two runs of them are followed side by side. Their transactions
are the same at any time, and so are the worlds; what is kept beside the transaction is the same up
to the order of events (`RunState.Twin`). A step of the one run has its counterpart in the other one
(`Engine.Alike`): nearly all of them do not look at events, and the delivery of an event does the
same in either order.

So the same is committed to the same audit log, and a record that is added has its sentences in
another order at most (`AuditLog.Reordered`, `Engine.execute_alike`), if the log was left alone
until then. With the handlers of this library it is, and every command comes to an end, so it comes
to the same end for both orders (`Engine.maintained_in_either_order`).
-/

namespace RpkiAuthority

open World

variable {X : Interface} {S : Type}

/-! ### The same up to the order of events -/

/-- **The sentences of the same events** in another order. -/
def Reordered (texts texts' : List String) : Prop :=
  ∃ events events' : List AuthorityEvent, events.Perm events' ∧
    texts = events.map AuthorityEvent.text ∧ texts' = events'.map AuthorityEvent.text

theorem reordered_nil : Reordered [] [] := ⟨[], [], List.Perm.refl _, rfl, rfl⟩

theorem Reordered.append {texts texts' : List String} (h : Reordered texts texts')
    {events events' : List AuthorityEvent} (hperm : events.Perm events') :
    Reordered (texts ++ events.map AuthorityEvent.text)
      (texts' ++ events'.map AuthorityEvent.text) := by
  obtain ⟨before, before', hbefore, rfl, rfl⟩ := h
  exact ⟨before ++ events, before' ++ events', hbefore.append hperm,
    List.map_append.symm, List.map_append.symm⟩

theorem Reordered.isEmpty_eq {texts texts' : List String} (h : Reordered texts texts') :
    texts'.isEmpty = texts.isEmpty := by
  obtain ⟨events, events', hperm, rfl, rfl⟩ := h
  rw [Bool.eq_iff_iff, List.isEmpty_iff_length_eq_zero, List.isEmpty_iff_length_eq_zero,
    List.length_map, List.length_map, hperm.length_eq]

/-- Records that are put off, with the same events in another order. -/
def PendingRecord.Twin (r r' : PendingRecord) : Prop :=
  r'.command = r.command ∧ r'.version = r.version ∧ Reordered r.events r'.events

namespace RunState

/-- **Two states are twins** if their transactions are the same, and what is kept beside is the same
up to the order of events. The audiences need not be the same. -/
structure Twin (s t : RunState X) : Prop where
  tx : t.tx = s.tx
  deletions : t.deletions = s.deletions
  logContext : t.logContext = s.logContext
  frames : List.Forall₂ Reordered s.frames t.frames
  records : List.Forall₂ PendingRecord.Twin s.records t.records

variable {s s' t : RunState X}

theorem Twin.eq_beside (h : s.Twin t) : t = s.beside t := by
  obtain ⟨htx, hdeletions, hcontext, -, -⟩ := h
  rw [beside, ← htx, ← hdeletions, ← hcontext]

/-- Noting events is adding to a list. -/
theorem noteEvents_eq_noted (s : RunState X) (events : List AuthorityEvent) :
    s.noteEvents events =
      { s with frames := noted s.frames (events.map AuthorityEvent.text) } := by
  cases h : s.frames with
  | nil =>
    have hnone : s.noteEvents events = s := by
      induction events with
      | nil => rfl
      | cons event rest ih => rw [noteEvents_cons, noteEvent, h, ih]
    rw [hnone, noted, ← h]
  | cons frame outer => exact Engine.noteEvents_eq h events

/-- **Events may be noted in another order.** -/
theorem Twin.noteEvents (h : s.Twin t) {events events' : List AuthorityEvent}
    (hperm : events.Perm events') : (s.noteEvents events).Twin (t.noteEvents events') := by
  rw [noteEvents_eq_noted, noteEvents_eq_noted]
  refine ⟨h.tx, h.deletions, h.logContext, ?_, h.records⟩
  have hframes := h.frames
  generalize s.frames = frames, t.frames = frames' at hframes
  cases hframes with
  | nil => exact .nil
  | cons hframe houter => exact .cons (hframe.append hperm) houter

theorem Twin.noteEvent (h : s.Twin t) (event : AuthorityEvent) :
    (s.noteEvent event).Twin (t.noteEvent event) :=
  h.noteEvents (List.Perm.refl [event])

theorem Twin.withEntry (h : s.Twin t) (id : AggregateId) (entry : Entry CertificateAuthority) :
    (s.withEntry id entry).Twin (t.withEntry id entry) :=
  ⟨by rw [RunState.withEntry, RunState.withEntry, h.tx], h.deletions, h.logContext, h.frames,
    h.records⟩

theorem Twin.entered (h : s.Twin t) (e e' : Engine X) : (s.entered e).Twin (t.entered e') :=
  ⟨h.tx, h.deletions, h.logContext, .cons reordered_nil h.frames, h.records⟩

/-- When a handler has ended, its own list of events is gone. -/
theorem Twin.left (h : s.Twin t) (e e' : Engine X) (before before' : RunState X) :
    (before.left e s).Twin (before'.left e' t) := by
  refine ⟨h.tx, h.deletions, h.logContext, ?_, h.records⟩
  exact List.forall₂_drop 1 h.frames

theorem Twin.headD_frames (h : s.Twin t) :
    Reordered (s.frames.headD []) (t.frames.headD []) := by
  have hframes := h.frames
  generalize s.frames = frames, t.frames = frames' at hframes
  cases hframes with
  | nil => exact reordered_nil
  | cons hframe _ => exact hframe

end RunState

/-! ### Runs side by side -/

namespace Engine

open Running RunState

/-- **A program does what another one does** in a twin of its state. -/
def Alike {α : Type} (outside : Outside X S) (m m' : Running X α) (s t : RunState X) : Prop :=
  ∀ ⦃w a s' w'⦄, runAlone outside (m.run s) w = some ((a, s'), w') →
    ∃ t', runAlone outside (m'.run t) w = some ((a, t'), w') ∧ s'.Twin t'

variable {outside : Outside X S} {α β : Type} {s t : RunState X}

theorem alike_pure (h : s.Twin t) (a : α) : Alike outside (pure a) (pure a) s t := by
  intro w a' s' w' hrun
  obtain ⟨hsame, rfl⟩ := Prod.mk.inj (Option.some.inj hrun)
  obtain ⟨rfl, rfl⟩ := Prod.mk.inj hsame
  exact ⟨t, rfl, h⟩

theorem Alike.bind {m m' : Running X α} {f f' : α → Running X β} (hm : Alike outside m m' s t)
    (hf : ∀ a s' t', s'.Twin t' → Alike outside (f a) (f' a) s' t') :
    Alike outside (m >>= f) (m' >>= f') s t := by
  intro w b s' w' hrun
  rw [StateT.run_bind] at hrun
  obtain ⟨⟨a, s₁⟩, w₁, hfirst, hrest⟩ := runAlone_bind_eq_some.mp hrun
  obtain ⟨t₁, hfirst', htwin⟩ := hm hfirst
  obtain ⟨t', hrest', htwin'⟩ := hf a s₁ t₁ htwin hrest
  refine ⟨t', ?_, htwin'⟩
  rw [StateT.run_bind]
  exact runAlone_bind_eq_some.mpr ⟨(a, t₁), w₁, hfirst', hrest'⟩

/-- **A blind program does the same in a twin of its state**, if it leaves events and records
alone. -/
theorem alike_of_blind {m : Running X α} (h : s.Twin t) (hblind : Blind m)
    (hkeeps : Keeps outside
      (fun s _ s' _ => s'.frames = s.frames ∧ s'.records = s.records) m) :
    Alike outside m m s t := by
  intro w a s' w' hrun
  obtain ⟨hframes, hrecords⟩ := hkeeps s hrun
  refine ⟨s'.beside t, ?_, rfl, rfl, rfl, ?_, ?_⟩
  · rw [h.eq_beside, hblind]
    exact runAlone_bind_eq_some.mpr ⟨(a, s'), w', hrun, rfl⟩
  · rw [hframes]
    exact h.frames
  · rw [hrecords]
    exact h.records

/-- Answers to quiet questions depend on the settings of the engine at most. -/
theorem answer_eq_of_quiet {e e' : Engine X} (hsettings : e'.settings = e.settings)
    (inside inside' : Nesting X) {q : ActionQuery X} (hq : q.IsQuiet) :
    e'.answer inside' q = e.answer inside q := by
  cases q with
  | publish | record | execute => exact hq.elim
  | settings => rw [answer, answer, hsettings]
  | _ => rfl

/-- **Two engines with the maintaining listeners** in whichever order, and with the same handlers
and settings. -/
structure Interchanged (e e' : Engine X) : Prop where
  settings : e'.settings = e.settings
  handlers : e'.handlers = e.handlers
  both : Maintenance.Both e.listeners
  both' : Maintenance.Both e'.listeners

variable {e e' : Engine X} (he : e.Interchanged e')

/-- **An event is delivered alike** in either order. -/
theorem alike_deliverTo (h : s.Twin t) (inside inside' : Nesting X) (event : AuthorityEvent)
    {listeners listeners' : List (Listener X)} (hl : Maintenance.Both listeners)
    (hl' : Maintenance.Both listeners') :
    Alike outside (e.deliverTo inside event listeners) (e'.deliverTo inside' event listeners')
      s t := by
  cases hid : Maintenance.certificatesOf event with
  | none =>
    intro w r s' w' hrun
    rw [deliverTo_both_other e inside hl hid] at hrun
    obtain ⟨hsame, rfl⟩ := Prod.mk.inj (Option.some.inj hrun)
    obtain ⟨rfl, rfl⟩ := Prod.mk.inj hsame
    exact ⟨t, by rw [deliverTo_both_other e' inside' hl' hid, runAlone_pure], h⟩
  | some id =>
    intro w r s' w' hrun
    rw [deliverTo_both_look e inside hl hid] at hrun
    obtain ⟨⟨entry, s₁⟩, w₁, hcopy, hrun⟩ := runAlone_bind_eq_some.mp hrun
    -- both runs find the same copy of the authority
    have hlook : Keeps outside
        (fun s _ s' _ => s'.frames = s.frames ∧ s'.records = s.records) (copyOf id) := by
      rw [← bind_pure (copyOf id)]
      exact keeps_look (eventless_quiet outside) fun entry =>
        keeps_pure (eventless_quiet outside).toSequential entry
    obtain ⟨t₁, hcopy', htwin⟩ := alike_of_blind h (blind_copyOf id) hlook hcopy
    obtain ⟨-, st, rfl⟩ := runAlone_copyOf hcopy
    obtain ⟨-, st', rfl⟩ := runAlone_copyOf hcopy'
    have hgo : ∀ {a t' w'}, runAlone outside
        ((e'.deliverTo inside' event listeners').run (st'.withEntry id entry)) w₁ =
          some ((a, t'), w') →
        runAlone outside ((e'.deliverTo inside' event listeners').run t) w =
          some ((a, t'), w') := by
      intro a t' w' hrest
      rw [deliverTo_both_look e' inside' hl' hid]
      exact runAlone_bind_eq_some.mpr ⟨_, w₁, hcopy', hrest⟩
    replace hrun : runAlone outside
        ((e.deliverTo inside event listeners).run (st.withEntry id entry)) w₁ =
          some ((r, s'), w') := hrun
    cases hworking : entry.working with
    | none =>
      rw [deliverTo_both_missing e inside st hl hid hworking] at hrun
      obtain ⟨hsame, rfl⟩ := Prod.mk.inj (Option.some.inj hrun)
      obtain ⟨rfl, rfl⟩ := Prod.mk.inj hsame
      refine ⟨st'.withEntry id entry, hgo ?_, htwin⟩
      rw [deliverTo_both_missing e' inside' st' hl' hid hworking, runAlone_pure]
    | some ca =>
      obtain ⟨events, hevents, hdelivered⟩ := deliverTo_both_run e inside st hl hid hworking
      obtain ⟨events', hevents', hdelivered'⟩ :=
        deliverTo_both_run e' inside' st' hl' hid hworking
      rw [hdelivered] at hrun
      obtain ⟨_, w₂, hsay, hend⟩ := runAlone_bind_eq_some.mp hrun
      obtain ⟨hsame, rfl⟩ := Prod.mk.inj (Option.some.inj hend)
      obtain ⟨rfl, rfl⟩ := Prod.mk.inj hsame
      have hcontext : st'.logContext = st.logContext := htwin.logContext
      refine ⟨(st'.noteEvents events').withEntry id
        (entry.lapsed (ca.lapsedEntries.isEmpty && ca.lapsedRoutes.isEmpty) ca.maintained),
        hgo ?_, ?_⟩
      · rw [hdelivered', hcontext]
        exact runAlone_bind_eq_some.mpr ⟨_, w₂, hsay, rfl⟩
      · -- the copy is put in place of the one that was looked at
        have hreplaced : ∀ (st : RunState X) (events : List AuthorityEvent) entry',
            (st.noteEvents events).withEntry id entry' =
              ((st.withEntry id entry).noteEvents events).withEntry id entry' := by
          intro st events entry'
          rw [noteEvents_eq_noted, noteEvents_eq_noted]
          exact (withEntry_withEntry _ _ _ _).symm
        rw [hreplaced st, hreplaced st']
        exact (htwin.noteEvents (hevents.trans hevents'.symm)).withEntry id _

section Inside

variable {inside inside' : Nesting X}
  (hreturned : ∀ c, Keeps outside (fun s _ s' _ => Returned s s') (inside.run c))
  (hreturned' : ∀ c, Keeps outside (fun s _ s' _ => Returned s s') (inside'.run c))
  (hadvanced : ∀ ev, Keeps outside (fun s _ s' _ => Advanced s s') (inside.deliver ev))
  (hadvanced' : ∀ ev, Keeps outside (fun s _ s' _ => Advanced s s') (inside'.deliver ev))
  (hrun : ∀ c s t, s.Twin t → s.scope.Sound → t.scope.Sound →
    Alike outside (inside.run c) (inside'.run c) s t)
  (hdeliver : ∀ ev s t, s.Twin t → s.Placed e → t.Placed e' →
    Alike outside (inside.deliver ev) (inside'.deliver ev) s t)

include he hrun hdeliver

theorem alike_answer (q : ActionQuery X) (h : s.Twin t) (hs : s.Placed e) (ht : t.Placed e') :
    Alike outside (e.answer inside q) (e'.answer inside' q) s t := by
  by_cases hq : q.IsQuiet
  · rw [answer_eq_of_quiet he.settings inside inside' hq]
    by_cases hdepth : q = .depth
    · -- lists of events are as many, whatever is in them
      subst hdepth
      intro w r s' w' hanswer
      obtain ⟨hsame, rfl⟩ := Prod.mk.inj (Option.some.inj hanswer)
      obtain ⟨rfl, rfl⟩ := Prod.mk.inj hsame
      refine ⟨t, ?_, h⟩
      exact congrArg (fun depth : Nat => some ((depth, t), w)) h.frames.length_eq.symm
    · exact alike_of_blind h (blind_answer e inside hq hdepth)
        (keeps_quiet_answer (eventless_quiet outside) e inside hq)
  · cases q with
    | publish ev =>
      intro w r s' w' hanswer
      exact hdeliver ev _ _ (h.noteEvent ev) ((advanced_noteEvent s ev).placed hs)
        ((advanced_noteEvent t ev).placed ht) hanswer
    | record ev =>
      intro w r s' w' hanswer
      obtain ⟨hsame, rfl⟩ := Prod.mk.inj (Option.some.inj hanswer)
      obtain ⟨-, rfl⟩ := Prod.mk.inj hsame
      exact ⟨t.noteEvent ev, rfl, h.noteEvent ev⟩
    | execute c => exact hrun c s t h hs.1 ht.1
    | _ => exact absurd trivial hq

include hreturned hreturned' hadvanced hadvanced'

/-- **A program does the same in both runs.** The induction is on the program: after an answer both
states still have their place. -/
theorem alike_program (program : Dialogue (actionInterface X) α) (h : s.Twin t)
    (hs : s.Placed e) (ht : t.Placed e') :
    Alike outside (program.conduct (e.answer inside)) (program.conduct (e'.answer inside'))
      s t := by
  induction program generalizing s t with
  | done a => exact alike_pure h a
  | ask q next ih =>
    intro w a s' w' hprogram
    obtain ⟨⟨r, s₁⟩, w₁, hanswer, hrest⟩ := runAlone_bind_eq_some.mp hprogram
    obtain ⟨t₁, hanswer', htwin⟩ := alike_answer he hrun hdeliver q h hs ht hanswer
    have hs₁ := (advanced_answer hreturned hadvanced q s hanswer).placed hs
    have ht₁ := (advanced_answer hreturned' hadvanced' q t hanswer').placed ht
    obtain ⟨t', hrest', htwin'⟩ := ih r htwin hs₁ ht₁ hrest
    exact ⟨t', runAlone_bind_eq_some.mpr ⟨(r, t₁), w₁, hanswer', hrest'⟩, htwin'⟩

omit hreturned hreturned' hadvanced hadvanced' he hrun hdeliver in
/-- The end of a command is the same for events in another order. -/
theorem alike_wrapUp (h : s.Twin t) (c : Command) (result : Except CommandError Unit)
    {events events' : List String} (hevents : Reordered events events') :
    Alike outside (wrapUp c result events) (wrapUp c result events') s t := by
  have hversion : Alike outside (versionAfter c) (versionAfter c) s t := by
    refine alike_of_blind h (blind_versionAfter c) ?_
    have hkeeps := keeps_versionAfter_bind (eventless_quiet outside) (c := c)
      fun s version _ => keeps_pure (eventless_quiet outside).toSequential version s
    rwa [bind_pure] at hkeeps
  cases result with
  | error err =>
    cases err with
    | noEffect => exact hversion.bind fun version s' t' h' => alike_pure h' _
    | _ => exact alike_pure h _
  | ok _ =>
    refine hversion.bind fun version s' t' h' => ?_
    rw [hevents.isEmpty_eq]
    split
    · refine Alike.bind ?_ fun _ _ _ h'' => alike_pure h'' _
      intro w a s'' w' hmodify
      obtain ⟨hsame, rfl⟩ := Prod.mk.inj (Option.some.inj hmodify)
      obtain ⟨-, rfl⟩ := Prod.mk.inj hsame
      refine ⟨_, rfl, h'.tx, h'.deletions, h'.logContext, h'.frames, ?_⟩
      exact List.rel_append h'.records (.cons ⟨rfl, rfl, hevents⟩ .nil)
    · exact Alike.bind (alike_pure h' _) fun _ _ _ h'' => alike_pure h'' _

/-- **A command does the same in both runs.** -/
theorem alike_run (c : Command) (h : s.Twin t) (hs : s.scope.Sound) (ht : t.scope.Sound) :
    Alike outside (e.run inside c) (e'.run inside' c) s t := by
  intro w r s' w' hcommand
  rw [run_eq, StateT.run_bind] at hcommand ⊢
  obtain ⟨⟨checked, s₁⟩, w₁, hcheck, hrest⟩ := runAlone_bind_eq_some.mp hcommand
  obtain ⟨t₁, hcheck', htwin⟩ := alike_of_blind h (blind_checkVersion c)
    (keeps_checkVersion (eventless_quiet outside) c) hcheck
  have hs₁ := (keeps_checkVersion (returned_quiet outside) c s hcheck).2 hs
  have ht₁ := (keeps_checkVersion (returned_quiet outside) c t hcheck').2 ht
  cases checked with
  | error err =>
    obtain ⟨t', hrest', htwin'⟩ := alike_pure htwin _ hrest
    exact ⟨t', runAlone_bind_eq_some.mpr ⟨(.error err, t₁), w₁, hcheck', hrest'⟩, htwin'⟩
  | ok _ =>
    replace hrest : runAlone outside
        ((e.handle inside c >>= fun p => wrapUp c p.1 p.2).run s₁) w₁ = some ((r, s'), w') := hrest
    rw [StateT.run_bind] at hrest
    obtain ⟨⟨⟨result, events⟩, s₂⟩, w₂, hhandle, hwrap⟩ := runAlone_bind_eq_some.mp hrest
    obtain ⟨s₃, hact, hevents, rfl⟩ := runAlone_handle hhandle
    dsimp only at hact hevents hwrap
    subst hevents
    obtain ⟨t₃, hact', htwin₃⟩ := alike_program he hreturned hreturned' hadvanced hadvanced' hrun
      hdeliver (e.handlers c.type c).run (htwin.entered e e') (placed_entered e (hs₁.sound hs))
      (placed_entered e' (ht₁.sound ht)) hact
    obtain ⟨t', hwrap', htwin'⟩ := alike_wrapUp (htwin₃.left e e' s₁ t₁) c result
      htwin₃.headD_frames hwrap
    refine ⟨t', runAlone_bind_eq_some.mpr ⟨(.ok (), t₁), w₁, hcheck', ?_⟩, htwin'⟩
    show runAlone outside
      ((e'.handle inside' c >>= fun p => wrapUp c p.1 p.2).run t₁) w₁ = some ((r, t'), w')
    rw [StateT.run_bind]
    refine runAlone_bind_eq_some.mpr ⟨((result, t₃.frames.headD []), t₁.left e' t₃), w₂, ?_, hwrap'⟩
    have hhandle' : (e'.handle inside' c).run t₁ =
        (e'.act inside' (e'.handlers c.type c)).run (t₁.entered e') >>= fun p =>
          pure ((p.1, p.2.frames.headD []), t₁.left e' p.2) := rfl
    rw [hhandle', he.handlers]
    exact runAlone_bind_eq_some.mpr ⟨(result, t₃), w₂, hact', rfl⟩

end Inside

include he

/-- **Commands and deliveries are alike in both runs**, at any level. -/
theorem alike_nesting (outside : Outside X S) (levels : Nat) :
    (∀ c s t, s.Twin t → s.scope.Sound → t.scope.Sound →
      Alike outside ((e.nesting levels).run c) ((e'.nesting levels).run c) s t) ∧
    ∀ ev s t, s.Twin t → s.Placed e → t.Placed e' →
      Alike outside ((e.nesting levels).deliver ev) ((e'.nesting levels).deliver ev) s t := by
  induction levels with
  | zero =>
    refine ⟨fun c s t _ _ _ w r s' w' hrun => ?_, fun ev s t _ _ _ w r s' w' hrun => ?_⟩ <;>
    exact absurd hrun (Option.some_ne_none _).symm
  | succ levels ih =>
    obtain ⟨hreturned, hadvanced⟩ := returned_nesting outside e levels
    obtain ⟨hreturned', hadvanced'⟩ := returned_nesting outside e' levels
    refine ⟨fun c s t h hs ht => ?_, fun ev s t h hs ht => ?_⟩
    · exact alike_run he hreturned hreturned' hadvanced hadvanced' ih.1 ih.2 c h hs ht
    · have hl : Maintenance.Both s.scope.listeners := hs.2 ▸ he.both.reverse
      have hl' : Maintenance.Both t.scope.listeners := ht.2 ▸ he.both'.reverse
      have halike : Alike outside (e.deliverTo (e.nesting levels) ev s.scope.listeners)
          (e'.deliverTo (e'.nesting levels) ev t.scope.listeners) s t :=
        alike_deliverTo h _ _ ev hl hl'
      exact halike

end Engine

/-! ### Records that are written -/

/-- **Records of the same**, with the sentences in another order. -/
def CommandRecord.Reordered (r r' : CommandRecord) : Prop :=
  ∃ texts texts', RpkiAuthority.Reordered texts texts' ∧ r.events = Text.join "\n" texts ∧
    r' = { r with events := Text.join "\n" texts' }

/-- A record as it was, or marked as deleted since. -/
def CommandRecord.Marked (r r' : CommandRecord) : Prop :=
  r' = r ∨ r.deletedAt = none ∧ ∃ time, r' = { r with deletedAt := some time }

theorem CommandRecord.Marked.trans {r r' r'' : CommandRecord} (h : r.Marked r')
    (h' : r'.Marked r'') : r.Marked r'' := by
  rcases h with rfl | ⟨hnone, time, rfl⟩
  · exact h'
  · rcases h' with rfl | ⟨hnone', -⟩
    · exact Or.inr ⟨hnone, time, rfl⟩
    · exact absurd hnone' (by simp)

/-- **Audit logs that were added to alike**: to the records that were found, some of them marked
since, records were added that have their sentences in another order. -/
def AuditLog.Reordered (found log log' : AuditLog) : Prop :=
  log'.nextId = log.nextId ∧ ∃ before added added',
    List.Forall₂ CommandRecord.Marked found.records before ∧ log.records = before ++ added ∧
    log'.records = before ++ added' ∧ List.Forall₂ CommandRecord.Reordered added added'

/-- Nothing was added to the records found, of which some are marked. -/
theorem AuditLog.reordered_of_marked {found log : AuditLog}
    (h : List.Forall₂ CommandRecord.Marked found.records log.records) : found.Reordered log log :=
  ⟨rfl, log.records, [], [], h, (List.append_nil _).symm, (List.append_nil _).symm, .nil⟩

/-- Nothing is marked. -/
theorem AuditLog.marked_refl (log : AuditLog) :
    List.Forall₂ CommandRecord.Marked log.records log.records :=
  List.forall₂_same.mpr fun _ _ => Or.inl rfl

theorem AuditLog.Reordered.refl (log : AuditLog) : log.Reordered log log :=
  reordered_of_marked log.marked_refl

/-- Deletions mark records, and leave the marks that are there. -/
theorem AuditLog.marked_delete {found : List CommandRecord} {log : AuditLog}
    (h : List.Forall₂ CommandRecord.Marked found log.records) (now : Timestamp)
    (id : AggregateId) :
    List.Forall₂ CommandRecord.Marked found (log.delete now id).2.records := by
  refine List.forall₂_map_right_iff.mpr (h.imp fun r r' hmarked => hmarked.trans ?_)
  split
  · next hcurrent =>
    rw [isCurrent, CommandRecord.isDeleted, Bool.and_eq_true, Bool.not_eq_true',
      Option.isSome_eq_false_iff, Option.isNone_iff_eq_none] at hcurrent
    exact Or.inr ⟨hcurrent.2, now, rfl⟩
  · exact Or.inl rfl

theorem AuditLog.marked_foldl_delete (now : Timestamp) (deletions : List AggregateId)
    {found : List CommandRecord} {log : AuditLog}
    (h : List.Forall₂ CommandRecord.Marked found log.records) :
    List.Forall₂ CommandRecord.Marked found
      (deletions.foldl (fun log id => (log.delete now id).2) log).records := by
  induction deletions generalizing log with
  | nil => exact h
  | cons id rest ih => exact ih (marked_delete h now id)

namespace World

theorem reordered_addRecord (now : Timestamp) (versions : VersionMap)
    {found log log' : AuditLog} (h : found.Reordered log log') {r r' : PendingRecord}
    (hr : r.Twin r') :
    found.Reordered (addRecord now versions log r) (addRecord now versions log' r') := by
  obtain ⟨hnext, before, added, added', hbefore, hlog, hlog', hadded⟩ := h
  obtain ⟨_, _, events⟩ := r
  obtain ⟨command, version, events'⟩ := r'
  obtain ⟨rfl, rfl, hevents⟩ := hr
  let authority : VersionedId :=
    ⟨command.authority.id, (versions.find? command.authority.id).getD version⟩
  refine ⟨congrArg (· + 1) hnext, before,
    added ++ [AuditLog.recordOf log.nextId now authority command events],
    added' ++ [AuditLog.recordOf log'.nextId now authority command events'], hbefore, ?_, ?_,
    List.rel_append hadded (.cons ⟨events, events', hevents, rfl, ?_⟩ .nil)⟩
  · rw [← List.append_assoc, ← hlog]
    rfl
  · rw [← List.append_assoc, ← hlog']
    rfl
  · rw [hnext]
    rfl

/-- Records that were put off are written alike. -/
theorem reordered_foldl_addRecord (now : Timestamp) (versions : VersionMap)
    {records records' : List PendingRecord}
    (hrecords : List.Forall₂ PendingRecord.Twin records records')
    {found log log' : AuditLog} (h : found.Reordered log log') :
    found.Reordered (records.foldl (addRecord now versions) log)
      (records'.foldl (addRecord now versions) log') := by
  induction hrecords generalizing log log' with
  | nil => exact h
  | cons hr _ ih => exact ih (reordered_addRecord now versions h hr)

/-- **A twin is committed alike**, if it is. -/
theorem commit_twin {s t : RunState X} (h : s.Twin t) {w u : World S}
    (hcommit : w.commit s.tx s.deletions s.records = .ok u) :
    ∃ audit', w.commit t.tx t.deletions t.records = .ok { u with audit := audit' } ∧
      w.audit.Reordered u.audit audit' := by
  rw [h.tx, h.deletions]
  rw [World.commit] at hcommit ⊢
  cases hstore : w.store.commit s.tx with
  | error err =>
    rw [hstore] at hcommit
    exact absurd hcommit (by simp)
  | ok committed =>
    rw [hstore] at hcommit
    obtain rfl := Except.ok.inj hcommit
    exact ⟨_, rfl, reordered_foldl_addRecord _ _ h.records
      (AuditLog.reordered_of_marked (AuditLog.marked_foldl_delete _ _ w.audit.marked_refl))⟩

/-- Whether a transaction is committed has nothing to do with events. -/
theorem commit_twin_error {s t : RunState X} (h : s.Twin t) {w : World S} {err : StorageError}
    (hcommit : w.commit s.tx s.deletions s.records = .error err) :
    w.commit t.tx t.deletions t.records = .error err := by
  rw [h.tx, h.deletions]
  rw [World.commit] at hcommit ⊢
  cases hstore : w.store.commit s.tx with
  | error other =>
    rw [hstore] at hcommit
    exact hcommit
  | ok committed =>
    rw [hstore] at hcommit
    exact absurd hcommit (by simp)

end World

/-! ### Whole executions -/

namespace Engine

open Running RunState

/-- **One process ends as another one does**: with the same result and the same world, up to the
order of sentences in records that were added to the log found. A failure leaves that log. -/
def EndsAlike (outside : Outside X S) (p p' : Process X (Except CommandError CommandStatus))
    (w : World S) : Prop :=
  ∀ ⦃r u⦄, runAlone outside p w = some (r, u) →
    ∃ audit', runAlone outside p' w = some (r, { u with audit := audit' }) ∧
      w.audit.Reordered u.audit audit' ∧
      ∀ err, r = .error err → u.audit = w.audit ∧ audit' = w.audit

variable {outside : Outside X S}

/-- A process that leaves the log alone. -/
theorem EndsAlike.refl {p : Process X (Except CommandError CommandStatus)}
    (hp : p.Only SharedQuery.KeepsAudit) (w : World S) : EndsAlike outside p p w := by
  intro r u hrun
  have hsame := audit_of_runAlone hp hrun
  exact ⟨u.audit, hrun, hsame ▸ .refl _, fun _ _ => ⟨hsame, hsame⟩⟩

/-- Until something is committed, the log is the one that was found. -/
theorem EndsAlike.of_audit_eq {p p' : Process X (Except CommandError CommandStatus)}
    {w v u : World S} {r : Except CommandError CommandStatus} (hsame : v.audit = w.audit)
    (h : EndsAlike outside p p' v) (hrun : runAlone outside p v = some (r, u)) :
    ∃ audit', runAlone outside p' v = some (r, { u with audit := audit' }) ∧
      w.audit.Reordered u.audit audit' ∧
      ∀ err, r = .error err → u.audit = w.audit ∧ audit' = w.audit :=
  hsame ▸ h hrun

theorem EndsAlike.step_bind {q : SharedQuery X} {w : World S} (hq : q.KeepsAudit)
    {f f' : (sharedInterface X).Reply q → Process X (Except CommandError CommandStatus)}
    (h : ∀ a u, step outside q w = some (a, u) → EndsAlike outside (f a) (f' a) u) :
    EndsAlike outside (Process.step q >>= f) (Process.step q >>= f') w := by
  intro r u hrun
  obtain ⟨a, v, hstep, hrest⟩ := runAlone_bind_eq_some.mp hrun
  have htaken : step outside q w = some (a, v) := (runAlone_step q w).symm.trans hstep
  obtain ⟨audit', hrest', hsame⟩ :=
    (h a v htaken).of_audit_eq (audit_of_step hq htaken) hrest
  exact ⟨audit', runAlone_bind_eq_some.mpr ⟨a, v, hstep, hrest'⟩, hsame⟩

/-- Where nothing is dropped with the scopes, twins end alike. -/
theorem endsAlike_finish {s t : RunState X} (h : s.Twin t) (hreset : s.scope.reset.1 = [])
    (hreset' : t.scope.reset.1 = []) (result : Except CommandError CommandStatus) (w : World S) :
    EndsAlike outside (finish s result) (finish t result) w := by
  rw [finish_of_reset hreset, finish_of_reset hreset']
  cases result with
  | error err =>
    dsimp only
    rw [h.tx]
    exact .refl (only_keepsAudit_giveBack _ _) w
  | ok status =>
    intro r u hrun
    dsimp only at hrun ⊢
    rw [Process.conclude] at hrun ⊢
    obtain ⟨committed, v, hcommit, hrun⟩ := runAlone_bind_eq_some.mp hrun
    rw [runAlone_step] at hcommit
    cases hworld : w.commit s.tx s.deletions s.records with
    | error err =>
      rw [step_commit_error hworld] at hcommit
      obtain ⟨rfl, rfl⟩ := Prod.mk.inj (Option.some.inj hcommit)
      have hsame : u.audit = w.audit := audit_of_runAlone (only_keepsAudit_giveBack _ _) hrun
      refine ⟨u.audit, runAlone_bind_eq_some.mpr ⟨.error err, w, ?_, ?_⟩, hsame ▸ .refl _,
        fun _ _ => ⟨hsame, hsame⟩⟩
      · rw [runAlone_step, step_commit_error (commit_twin_error h hworld)]
      · rw [h.tx]
        exact hrun
    | ok after =>
      rw [step_commit_ok hworld] at hcommit
      obtain ⟨rfl, rfl⟩ := Prod.mk.inj (Option.some.inj hcommit)
      obtain ⟨audit', hworld', hsame⟩ := commit_twin h hworld
      obtain ⟨_, v, hrelease, hrun⟩ := runAlone_bind_eq_some.mp hrun
      obtain ⟨-, rfl⟩ := Prod.mk.inj (Option.some.inj hrelease)
      obtain ⟨rfl, rfl⟩ := Prod.mk.inj (Option.some.inj hrun)
      refine ⟨audit', runAlone_bind_eq_some.mpr ⟨.ok (), { after with audit := audit' }, ?_, ?_⟩,
        hsame, fun _ hnot => absurd hnot (by simp)⟩
      · rw [runAlone_step, step_commit_ok hworld']
      · rw [h.tx]
        rfl

section Orders

variable {e e' : Engine X} (he : e.Interchanged e') {levels : Nat} {c : Command}
  (hown : ∀ tx : Transaction CertificateAuthority, tx.entries = OrdMap.empty →
    Process.Only SharedQuery.IsOwn
      (((e.nesting levels).run c).run (RunState.new tx (contextOf c))))

include he hown

theorem endsAlike_attempt (w : World S) :
    EndsAlike outside (e.attempt levels c) (e'.attempt levels c) w := by
  rw [attempt_eq, attempt_eq]
  refine EndsAlike.step_bind (q := .start) trivial fun tx v hstart r u hrun => ?_
  have htx : tx.entries = OrdMap.empty := by
    obtain ⟨rfl, -⟩ := Prod.mk.inj (Option.some.inj hstart)
    rfl
  obtain ⟨⟨result, s⟩, x, hcommand, hrun⟩ := runAlone_bind_eq_some.mp hrun
  have hsound : (RunState.new (X := X) tx (contextOf c)).scope.Sound := Propagation.sound_new
  obtain ⟨t, hcommand', htwin⟩ := (alike_nesting he outside levels).1 c _ _
    ⟨rfl, rfl, rfl, .nil, .nil⟩ hsound hsound hcommand
  have hkept := ((returned_nesting outside e levels).1 c _ hcommand).2 hsound
  have hkept' := ((returned_nesting outside e' levels).1 c _ hcommand').2 hsound
  -- the command neither commits nor asks for anything outside
  have hkeeps := (((only_nesting e levels).1 c _).and (hown tx htx)).mono
    fun q hq => SharedQuery.keepsAudit_of_isCommandStep hq.1 hq.2
  obtain ⟨audit', hend, hsame⟩ :=
    (endsAlike_finish htwin hkept.reset_eq_nil hkept'.reset_eq_nil result x).of_audit_eq
      (audit_of_runAlone hkeeps hcommand) hrun
  exact ⟨audit', runAlone_bind_eq_some.mpr ⟨(result, t), x, hcommand', hend⟩, hsame⟩

/-- Attempts are repeated after failures only, and up to a failure there is no difference at all. -/
theorem endsAlike_attempts (more retry : Nat) (w : World S) :
    EndsAlike outside (e.attempts levels c more retry) (e'.attempts levels c more retry) w := by
  induction more using Nat.strongRecOn generalizing retry w with
  | ind more ih =>
    intro r u hrun
    rw [attempts] at hrun ⊢
    obtain ⟨result, v, hattempt, hrun⟩ := runAlone_bind_eq_some.mp hrun
    obtain ⟨audit', hattempt', hsame, herror⟩ := endsAlike_attempt he hown w hattempt
    cases result with
    | ok status =>
      obtain ⟨rfl, rfl⟩ := Prod.mk.inj (Option.some.inj hrun)
      exact ⟨audit', runAlone_bind_eq_some.mpr ⟨_, _, hattempt', rfl⟩, hsame, herror⟩
    | error err =>
      obtain ⟨hfound, rfl⟩ := herror err rfl
      rw [← hfound] at hattempt'
      suffices hrest : EndsAlike outside _ _ v by
        obtain ⟨audit', hrest', hsame⟩ := hrest.of_audit_eq hfound hrun
        exact ⟨audit', runAlone_bind_eq_some.mpr ⟨_, v, hattempt', hrest'⟩, hsame⟩
      dsimp only
      split
      · cases more with
        | zero =>
          refine .refl (Process.Only.bind (Process.only_step ?_) fun _ => ?_) v
          · trivial
          · exact (only_keepsAudit_givenUp c).bind fun _ => trivial
        | succ more =>
          rw [he.settings]
          refine EndsAlike.step_bind (q := .draw _) trivial fun _ _ _ => ?_
          refine EndsAlike.step_bind (q := .measure _) trivial fun _ _ _ => ?_
          refine EndsAlike.step_bind (q := .log _) trivial fun _ u _ => ?_
          exact ih more (Nat.lt_succ_self more) _ u
      · refine .refl (Process.Only.bind (Process.only_step ?_) fun _ => ?_) v <;> trivial

/-- **A command is executed alike** by two engines that differ in the order of the maintaining
listeners, if its handler asks for nothing outside and whatever else it does: the result and the
world in the end are the same, but that the sentences of a record that was added may come in another
order. -/
theorem execute_alike {w u : World S} {r : Except CommandError CommandStatus}
    (h : World.execute outside e levels c w = some (r, u)) :
    ∃ audit', World.execute outside e' levels c w = some (r, { u with audit := audit' }) ∧
      w.audit.Reordered u.audit audit' := by
  obtain ⟨result, v, hattempts, h⟩ := runAlone_bind_eq_some.mp h
  obtain ⟨_, v₁, hv₁, h⟩ := runAlone_bind_eq_some.mp h
  obtain ⟨_, v₂, hv₂, h⟩ := runAlone_bind_eq_some.mp h
  obtain ⟨-, rfl⟩ := Prod.mk.inj (Option.some.inj hv₁)
  obtain ⟨-, rfl⟩ := Prod.mk.inj (Option.some.inj hv₂)
  obtain ⟨rfl, rfl⟩ := Prod.mk.inj (Option.some.inj h)
  have hsettings : e'.settings = e.settings := he.settings
  obtain ⟨audit', hattempts', hsame, -⟩ := endsAlike_attempts he hown _ _ _ hattempts
  refine ⟨audit', runAlone_bind_eq_some.mpr ⟨result, { v with audit := audit' }, ?_, ?_⟩, hsame⟩
  · rw [hsettings]
    exact hattempts'
  · exact runAlone_bind_eq_some.mpr ⟨_, _, rfl, runAlone_bind_eq_some.mpr ⟨_, _, rfl, rfl⟩⟩

end Orders

/-- **The order of the maintaining listeners does not matter, and neither does a second delivery.**
Every command, on whatever is stored, ends with the same result and the same world for either order,
and in particular with the same authorities committed; the records that were found are the same
afterwards, but for marks, and if one is added then with the sentences of the same events, in
another order at most. And when an event was delivered to both listeners, in either order and in
whatever transaction, then delivering it again to both ends in the same way and changes nothing:
neither the copies of the transaction, nor the lists of events, nor the log. -/
theorem maintained_in_either_order (outside : Outside X S) (settings : Settings) (levels : Nat)
    (c : Command) (w : World S) :
    (∃ r u audit',
      World.execute outside (standard settings) (levels + 2) c w = some (r, u) ∧
      World.execute outside
          { standard settings with listeners := Maintenance.standard.reverse } (levels + 2) c w =
        some (r, { u with audit := audit' }) ∧
      w.audit.Reordered u.audit audit') ∧
    ∀ (e : Engine X) (inside : Nesting X) (event : AuthorityEvent)
      (listeners listeners' : List (Listener X)),
      Maintenance.Both listeners → Maintenance.Both listeners' →
      ∀ (s s' : RunState X) (v v' : World S) (r : Except CommandError Unit),
        runAlone outside ((e.deliverTo inside event listeners).run s) v = some ((r, s'), v') →
        runAlone outside ((e.deliverTo inside event listeners').run s') v' =
          some ((r, s'), v') := by
  refine ⟨?_, fun e inside event _ _ hl hl' _ _ _ _ _ h => deliverTo_again e inside hl hl' h⟩
  obtain ⟨r, u, h, -⟩ := execute_outcome outside settings levels c w
  have he : (standard (X := X) settings).Interchanged
      { standard settings with listeners := Maintenance.standard.reverse } :=
    ⟨rfl, rfl, .inl rfl, .inr rfl⟩
  obtain ⟨audit', h', hsame⟩ := execute_alike he (fun _ => only_own_standard settings levels c) h
  exact ⟨r, u, audit', h, h', hsame⟩

/-- A transaction that has revoked all certificates of an authority. -/
def revoking : RunState Interface.none :=
  RunState.withEntry { RunState.new (.new 0) LogContext.none with frames := [[]] } 1
    ⟨some 4, some { twiceCertified with incoming := OrdMap.empty }, true, false⟩

/-- When the first of two certificates is revoked an entry and an announcement lapse, and the logs
differ in the order of their sentences. And when both were revoked, a delivery notes two events, and
delivering again, in the other order, notes none. -/
theorem maintained_in_either_order_revoked :
    (∃ u audit',
      World.execute Outside.none (standard .standard) 2
          ⟨⟨1, 0⟩, .system, .revokeIncomingCertificate "first"⟩ withTwiceCertified =
        some (.ok ⟨true, ⟨1, 5⟩⟩, u) ∧
      World.execute Outside.none
          { standard .standard with listeners := Maintenance.standard.reverse } 2
          ⟨⟨1, 0⟩, .system, .revokeIncomingCertificate "first"⟩ withTwiceCertified =
        some (.ok ⟨true, ⟨1, 5⟩⟩, { u with audit := audit' }) ∧
      withTwiceCertified.audit.Reordered u.audit audit' ∧ u.audit ≠ audit') ∧
    ∃ s' v', runAlone Outside.none (((standard .standard).deliverTo ((standard .standard).nesting 0)
        (.incomingCertificateRevoked ⟨1, 5⟩ "first") Maintenance.standard).run revoking)
          withTwiceCertified = some ((.ok (), s'), v') ∧
      s'.frames.map List.length = [2] ∧
      runAlone Outside.none (((standard .standard).deliverTo ((standard .standard).nesting 0)
        (.incomingCertificateRevoked ⟨1, 5⟩ "first") Maintenance.standard.reverse).run s')
          v' = some ((.ok (), s'), v') := by
  have hresult : (World.execute Outside.none (standard .standard) 2
      ⟨⟨1, 0⟩, .system, .revokeIncomingCertificate "first"⟩ withTwiceCertified).map (fun p =>
        p.1.toOption) = some (some ⟨true, ⟨1, 5⟩⟩) := by
    decide +kernel
  have hdiffer : (World.execute Outside.none (standard .standard) 2
      ⟨⟨1, 0⟩, .system, .revokeIncomingCertificate "first"⟩ withTwiceCertified).map (fun p =>
        p.2.audit) ≠
      (World.execute Outside.none
        { standard .standard with listeners := Maintenance.standard.reverse } 2
        ⟨⟨1, 0⟩, .system, .revokeIncomingCertificate "first"⟩ withTwiceCertified).map (fun p =>
          p.2.audit) := by
    decide +kernel
  have hdelivered : (runAlone Outside.none (((standard .standard).deliverTo
      ((standard .standard).nesting 0) (.incomingCertificateRevoked ⟨1, 5⟩ "first")
      Maintenance.standard).run revoking) withTwiceCertified).map (fun p =>
        (p.1.1.toOption, p.1.2.frames.map List.length)) = some (some (), [2]) := by
    decide +kernel
  obtain ⟨⟨r, u, audit', h, h', hsame⟩, hagain⟩ := maintained_in_either_order Outside.none .standard
    0 ⟨⟨1, 0⟩, .system, .revokeIncomingCertificate "first"⟩ withTwiceCertified
  rw [h, Option.map_some] at hresult
  obtain rfl : r = .ok ⟨true, ⟨1, 5⟩⟩ := by
    cases r with
    | error err => exact absurd (Option.some.inj hresult) (by simp [Except.toOption])
    | ok status => exact congrArg Except.ok (Option.some.inj (Option.some.inj hresult))
  rw [h, h', Option.map_some, Option.map_some] at hdiffer
  refine ⟨⟨u, audit', h, h', hsame, fun hequal => hdiffer (congrArg some hequal)⟩, ?_⟩
  obtain ⟨⟨⟨answer, s'⟩, v'⟩, hfirst, hfound⟩ := Option.map_eq_some_iff.mp hdelivered
  obtain ⟨hanswer, hnoted⟩ := Prod.mk.inj hfound
  cases answer with
  | error err => exact absurd hanswer (by simp [Except.toOption])
  | ok _ =>
    exact ⟨s', v', hfirst, hnoted, hagain _ _ _ _ _ (.inl rfl) (.inr rfl) _ _ _ _ _ hfirst⟩

end Engine

end RpkiAuthority
