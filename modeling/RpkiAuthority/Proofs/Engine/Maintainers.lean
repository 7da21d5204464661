import RpkiAuthority.Engine.World
import RpkiAuthority.Proofs.Authority.Recertified

/-!
# The maintaining listeners in either order

The two maintaining listeners take different things away from an authority, and neither changes the
certificates. So what lapses for the one does not depend on the other, and in either order the
authority is maintained in the end (`CertificateAuthority.maintained_comm`). The same events are
noted, in another order (`Engine.deliverTo_both_run`).

Nothing lapses of an authority that was maintained. So a second delivery does nothing at all
(`Engine.deliverTo_again`). All of this holds for any state of the transaction in which an event may
be delivered.
-/

namespace RpkiAuthority

open World

namespace CertificateAuthority

variable (ca : CertificateAuthority)

/-! ### Two things taken away -/

theorem certified_dropLapsedRoutes : ca.dropLapsedRoutes.certified = ca.certified := by
  rw [certified, dropLapsedRoutes_incoming, certified]

/-- What lapses among the entries does not depend on the announcements. -/
theorem lapsedEntries_dropLapsedRoutes : ca.dropLapsedRoutes.lapsedEntries = ca.lapsedEntries := by
  rw [lapsedEntries, dropLapsedRoutes_aspa, certified_dropLapsedRoutes, lapsedEntries]

/-- What lapses among the announcements does not depend on the entries. -/
theorem lapsedRoutes_dropLapsedEntries : ca.dropLapsedEntries.lapsedRoutes = ca.lapsedRoutes := by
  rw [lapsedRoutes, dropLapsedEntries_roaAlerts, certified_dropLapsedEntries, lapsedRoutes]

theorem name_dropLapsedRoutes : ca.dropLapsedRoutes.name = ca.name := by
  rw [dropLapsedRoutes]
  split <;> rfl

/-- **The order does not matter** to what is left in the end. -/
theorem maintained_comm : ca.dropLapsedRoutes.dropLapsedEntries = ca.maintained := by
  rw [maintained, dropLapsedEntries, lapsedEntries_dropLapsedRoutes, dropLapsedRoutes_aspa,
    certified_dropLapsedRoutes]
  by_cases hentries : ca.lapsedEntries.isEmpty = true
  · rw [if_pos hentries, dropLapsedEntries_eq_self hentries]
  · rw [if_neg hentries, dropLapsedRoutes, dropLapsedRoutes, lapsedRoutes_dropLapsedEntries,
      certified_dropLapsedEntries, alerts, alerts, dropLapsedEntries_roaAlerts, dropLapsedEntries,
      if_neg hentries]
    split <;> rfl

/-- Nothing lapses among the entries that were maintained. -/
theorem lapsedEntries_maintained : ca.maintained.lapsedEntries = [] := by
  have hcertified : ca.maintained.certified = ca.certified := by
    rw [maintained, certified_dropLapsedRoutes, certified_dropLapsedEntries]
  have haspa : ca.maintained.aspa =
      ca.aspa.filter fun customer _ => ca.certified.containsAsn customer := by
    rw [maintained, dropLapsedRoutes_aspa, dropLapsedEntries_aspa]
  rw [lapsedEntries, hcertified, haspa, AspaConfiguration.splitHeld]
  refine List.filter_eq_nil_iff.mpr fun e he => ?_
  have hheld := (List.mem_filter.mp he).2
  rw [Bool.not_eq_true', Bool.not_eq_false]
  exact hheld

/-- Nothing lapses among the announcements that were maintained. -/
theorem lapsedRoutes_maintained : ca.maintained.lapsedRoutes = [] := by
  have hcertified : ca.maintained.certified = ca.certified := by
    rw [maintained, certified_dropLapsedRoutes, certified_dropLapsedEntries]
  have halerts : ca.maintained.roaAlerts =
      ca.roaAlerts.map fun alerts => alerts.retainOverlapping ca.certified := by
    rw [maintained, dropLapsedRoutes_roaAlerts, certified_dropLapsedEntries,
      dropLapsedEntries_roaAlerts]
  rw [lapsedRoutes, hcertified, halerts]
  cases ca.roaAlerts with
  | none => rfl
  | some alerts =>
    refine List.filter_eq_nil_iff.mpr fun route hroute => ?_
    obtain ⟨e, he, rfl⟩ := List.mem_map.mp hroute
    have hmeets := (List.mem_filter.mp he).2
    rw [Bool.not_eq_true', Bool.not_eq_false]
    exact hmeets

end CertificateAuthority

/-- Taking away from a copy twice. -/
theorem Entry.lapsed_lapsed (entry : Entry CertificateAuthority) {nothing nothing' : Bool}
    {ca ca' : CertificateAuthority} (hsame : nothing' = true → ca' = ca) :
    (entry.lapsed nothing ca).lapsed nothing' ca' = entry.lapsed (nothing && nothing') ca' := by
  cases nothing' with
  | false =>
    rw [Bool.and_false]
    cases nothing <;> rfl
  | true =>
    rw [hsame rfl, Bool.and_true]
    rfl

variable {X : Interface} {S : Type}

/-- **Both maintaining listeners**, in whichever order. -/
def Maintenance.Both (listeners : List (Listener X)) : Prop :=
  listeners = standard ∨ listeners = standard.reverse

theorem Maintenance.Both.reverse {listeners : List (Listener X)} (h : Both listeners) :
    Both listeners.reverse := by
  rcases h with rfl | rfl
  · exact .inr rfl
  · exact .inl (List.reverse_reverse _)

namespace Running

/-- Looking at an authority twice is looking at it once. -/
theorem copyOf_bind_run {α : Type} (id : AggregateId)
    (f : Entry CertificateAuthority → Running X α) (s : RunState X) :
    (Running.copyOf id >>= f).run s =
      (Running.copyOf id).run s >>= fun p => (Running.copyOf id >>= f).run p.2 := by
  cases hfind : s.tx.entries.find? id with
  | some entry =>
    have hcopy : (Running.copyOf id).run s = pure (entry, s) := by simp [Running.copyOf, hfind]
    rw [hcopy, pure_bind]
  | none =>
    rw [StateT.run_bind, show (Running.copyOf id).run s = _ from copyOf_run_seen hfind none,
      bind_assoc, bind_assoc]
    refine bind_congr fun found => ?_
    rw [pure_bind, pure_bind, StateT.run_bind, copyOf_run, pure_bind]

/-- Looking at an authority leaves a copy of it, and nothing of what is shared is changed. -/
theorem runAlone_copyOf {outside : Outside X S} {id : AggregateId} {s s' : RunState X}
    {w w' : World S} {entry : Entry CertificateAuthority}
    (h : runAlone outside ((Running.copyOf id).run s) w = some ((entry, s'), w')) :
    w' = w ∧ ∃ st : RunState X, s' = st.withEntry id entry := by
  cases hfind : s.tx.entries.find? id with
  | some found =>
    have hcopy : (Running.copyOf id).run s = pure (found, s) := by simp [Running.copyOf, hfind]
    rw [hcopy] at h
    obtain ⟨hsame, rfl⟩ := Prod.mk.inj (Option.some.inj h)
    obtain ⟨rfl, rfl⟩ := Prod.mk.inj hsame
    refine ⟨rfl, s, ?_⟩
    have hentries : s.tx.entries.insert id found = s.tx.entries := by
      refine OrdMap.ext_find? fun q => ?_
      by_cases hq : q = id
      · rw [hq, OrdMap.find?_insert_self, hfind]
      · rw [OrdMap.find?_insert_of_ne _ hq]
    rw [RunState.withEntry, Transaction.setEntry, hentries]
  | none =>
    rw [show (Running.copyOf id).run s = _ from copyOf_run_seen hfind none] at h
    obtain ⟨found, w₁, hread, h⟩ := runAlone_bind_eq_some.mp h
    obtain ⟨-, rfl⟩ := Prod.mk.inj (Option.some.inj hread)
    obtain ⟨hsame, rfl⟩ := Prod.mk.inj (Option.some.inj h)
    obtain ⟨rfl, rfl⟩ := Prod.mk.inj hsame
    exact ⟨rfl, s, rfl⟩

end Running

namespace Engine

variable (e : Engine X) (inside : Nesting X) {event : AuthorityEvent} {id : AggregateId}
  {listeners : List (Listener X)}

/-! ### Deliveries to an authority that was looked at -/

section WithEntry

variable (st : RunState X) {entry : Entry CertificateAuthority}

/-- **The delivery of an event about certificates**, in either order: the authority is maintained,
and what lapsed is noted. -/
theorem deliverTo_both_run (hl : Maintenance.Both listeners)
    (h : Maintenance.certificatesOf event = some id) {ca : CertificateAuthority}
    (hworking : entry.working = some ca) :
    ∃ events : List AuthorityEvent,
      events.Perm
        (ca.entryEvents ⟨id, entry.nextVersion⟩ ++ ca.routeEvents ⟨id, entry.nextVersion⟩) ∧
      (e.deliverTo inside event listeners).run (st.withEntry id entry) =
        Process.say st.logContext ca.lapseLines >>= fun _ =>
          pure (.ok (), (st.noteEvents events).withEntry id
            (entry.lapsed (ca.lapsedEntries.isEmpty && ca.lapsedRoutes.isEmpty)
              ca.maintained)) := by
  rcases hl with rfl | rfl
  · -- the announcements come first
    refine ⟨_, List.perm_append_comm, ?_⟩
    have hleft : (entry.lapsed ca.lapsedRoutes.isEmpty ca.dropLapsedRoutes).working =
        some ca.dropLapsedRoutes :=
      Entry.working_lapsed hworking CertificateAuthority.dropLapsedRoutes_eq_self
    have hlines : ca.dropLapsedRoutes.lapseLines = ca.lapseLines := by
      rw [CertificateAuthority.lapseLines, CertificateAuthority.lapsedEntries_dropLapsedRoutes,
        CertificateAuthority.name_dropLapsedRoutes, CertificateAuthority.lapseLines]
    have hevents : ∀ v, ca.dropLapsedRoutes.entryEvents v = ca.entryEvents v := by
      intro v
      rw [CertificateAuthority.entryEvents, CertificateAuthority.lapsedEntries_dropLapsedRoutes,
        CertificateAuthority.entryEvents]
    have hcontext : ∀ events, (st.noteEvents events).logContext = st.logContext := by
      intro events
      induction events generalizing st with
      | nil => rfl
      | cons event rest ih => rw [RunState.noteEvents_cons, ih, RunState.noteEvent_logContext]
    rw [Maintenance.standard, deliverTo, StateT.run_bind, act_roaAlerts_run e inside st h hworking,
      pure_bind]
    dsimp only
    rw [deliverTo, StateT.run_bind, act_aspa_run e inside _ h hleft, bind_assoc, hlines, hevents,
      hcontext, Entry.nextVersion_lapsed, CertificateAuthority.lapsedEntries_dropLapsedRoutes,
      CertificateAuthority.maintained_comm]
    refine bind_congr fun _ => ?_
    rw [pure_bind, Bool.and_comm, RunState.noteEvents_append, Entry.lapsed_lapsed]
    · rfl
    · intro hempty
      rw [CertificateAuthority.maintained, CertificateAuthority.dropLapsedEntries_eq_self hempty]
  · refine ⟨_, List.Perm.refl _, ?_⟩
    have hleft : (entry.lapsed ca.lapsedEntries.isEmpty ca.dropLapsedEntries).working =
        some ca.dropLapsedEntries :=
      Entry.working_lapsed hworking CertificateAuthority.dropLapsedEntries_eq_self
    have hevents : ∀ v, ca.dropLapsedEntries.routeEvents v = ca.routeEvents v := by
      intro v
      rw [CertificateAuthority.routeEvents, CertificateAuthority.lapsedRoutes_dropLapsedEntries,
        CertificateAuthority.routeEvents]
    rw [Maintenance.standard, List.reverse_cons, List.reverse_singleton, List.singleton_append,
      deliverTo, StateT.run_bind, act_aspa_run e inside st h hworking, bind_assoc]
    refine bind_congr fun _ => ?_
    rw [pure_bind]
    dsimp only
    rw [deliverTo, StateT.run_bind, act_roaAlerts_run e inside _ h hleft, pure_bind, hevents,
      Entry.nextVersion_lapsed, CertificateAuthority.lapsedRoutes_dropLapsedEntries,
      RunState.noteEvents_append, ← CertificateAuthority.maintained, Entry.lapsed_lapsed]
    · rfl
    · intro hempty
      rw [CertificateAuthority.maintained, CertificateAuthority.dropLapsedRoutes_eq_self]
      rwa [CertificateAuthority.lapsedRoutes_dropLapsedEntries]

/-- Where there is no authority the first listener fails. -/
theorem deliverTo_both_missing (hl : Maintenance.Both listeners)
    (h : Maintenance.certificatesOf event = some id) (hworking : entry.working = none) :
    (e.deliverTo inside event listeners).run (st.withEntry id entry) =
      pure (.error (.unknownAuthority id), st.withEntry id entry) := by
  have hget : ∀ f : CertificateAuthority → Action X Unit,
      (e.act inside (Action.get id >>= f)).run (st.withEntry id entry) =
        pure (.error (.unknownAuthority id), st.withEntry id entry) := by
    intro f
    rw [act_bind_run, act_get, Running.onCopy_run, Running.onEntry, hworking, pure_bind]
  rcases hl with rfl | rfl
  · rw [Maintenance.standard, deliverTo, StateT.run_bind, Maintenance.roaAlerts, h, hget, pure_bind]
    rfl
  · rw [Maintenance.standard, List.reverse_cons, List.reverse_singleton, List.singleton_append,
      deliverTo, StateT.run_bind, Maintenance.aspa, h, hget, pure_bind]
    rfl

end WithEntry

/-! ### Deliveries in any state -/

/-- An event that is not about certificates is of no concern. -/
theorem deliverTo_both_other (hl : Maintenance.Both listeners)
    (h : Maintenance.certificatesOf event = none) (s : RunState X) :
    (e.deliverTo inside event listeners).run s = pure (.ok (), s) := by
  have haspa : (e.act inside (Maintenance.aspa event)).run s = pure (.ok (), s) := by
    rw [Maintenance.aspa, h]
    rfl
  have hroutes : (e.act inside (Maintenance.roaAlerts event)).run s = pure (.ok (), s) := by
    rw [Maintenance.roaAlerts, h]
    rfl
  rcases hl with rfl | rfl
  · rw [Maintenance.standard, deliverTo, StateT.run_bind, hroutes, pure_bind]
    dsimp only
    rw [deliverTo, StateT.run_bind, haspa, pure_bind]
    rfl
  · rw [Maintenance.standard, List.reverse_cons, List.reverse_singleton, List.singleton_append,
      deliverTo, StateT.run_bind, haspa, pure_bind]
    dsimp only
    rw [deliverTo, StateT.run_bind, hroutes, pure_bind]
    rfl

/-- **Both listeners look at the authority first**, so it makes no difference to have looked at it
before. -/
theorem deliverTo_both_look (hl : Maintenance.Both listeners)
    (h : Maintenance.certificatesOf event = some id) (s : RunState X) :
    (e.deliverTo inside event listeners).run s =
      (Running.copyOf id).run s >>= fun p => (e.deliverTo inside event listeners).run p.2 := by
  have hget : ∀ (f : CertificateAuthority → Action X Unit)
      (k : Except CommandError Unit → Running X (Except CommandError Unit)),
      (e.act inside (Action.get id >>= f) >>= k).run s =
      (Running.copyOf id).run s >>= fun p =>
        (e.act inside (Action.get id >>= f) >>= k).run p.2 := by
    intro f k
    simp only [StateT.run_bind, act_bind_run, act_get, bind_assoc]
    rw [Running.onCopy, Running.copyOf_bind_run, bind_assoc]
  rcases hl with rfl | rfl
  · rw [Maintenance.standard, deliverTo, Maintenance.roaAlerts, h]
    exact hget _ _
  · rw [Maintenance.standard, List.reverse_cons, List.reverse_singleton, List.singleton_append,
      deliverTo, Maintenance.aspa, h]
    exact hget _ _

/-- **A second delivery does nothing**, in whichever order the first and the second one are: it ends
as the first one did, the state of the transaction stays as it is, with the lists of events, and so
does the world with its log. -/
theorem deliverTo_again {outside : Outside X S} {listeners' : List (Listener X)}
    (hl : Maintenance.Both listeners) (hl' : Maintenance.Both listeners') {s s' : RunState X}
    {w w' : World S} {r : Except CommandError Unit}
    (h : runAlone outside ((e.deliverTo inside event listeners).run s) w = some ((r, s'), w')) :
    runAlone outside ((e.deliverTo inside event listeners').run s') w' = some ((r, s'), w') := by
  cases hid : Maintenance.certificatesOf event with
  | none =>
    rw [deliverTo_both_other e inside hl hid] at h
    obtain ⟨hsame, rfl⟩ := Prod.mk.inj (Option.some.inj h)
    obtain ⟨rfl, rfl⟩ := Prod.mk.inj hsame
    rw [deliverTo_both_other e inside hl' hid, runAlone_pure]
  | some id =>
    rw [deliverTo_both_look e inside hl hid] at h
    obtain ⟨⟨entry, s₁⟩, w₁, hcopy, h⟩ := runAlone_bind_eq_some.mp h
    obtain ⟨-, st, rfl⟩ := Running.runAlone_copyOf hcopy
    dsimp only at h
    cases hworking : entry.working with
    | none =>
      rw [deliverTo_both_missing e inside st hl hid hworking] at h
      obtain ⟨hsame, rfl⟩ := Prod.mk.inj (Option.some.inj h)
      obtain ⟨rfl, rfl⟩ := Prod.mk.inj hsame
      rw [deliverTo_both_missing e inside st hl' hid hworking, runAlone_pure]
    | some ca =>
      obtain ⟨events, -, hrun⟩ := deliverTo_both_run e inside st hl hid hworking
      rw [hrun] at h
      obtain ⟨_, w₂, -, h⟩ := runAlone_bind_eq_some.mp h
      obtain ⟨hsame, rfl⟩ := Prod.mk.inj (Option.some.inj h)
      obtain ⟨rfl, rfl⟩ := Prod.mk.inj hsame
      have hleft : (entry.lapsed (ca.lapsedEntries.isEmpty && ca.lapsedRoutes.isEmpty)
          ca.maintained).working = some ca.maintained := by
        refine Entry.working_lapsed hworking fun hempty => ?_
        obtain ⟨hentries, hroutes⟩ := (Bool.and_eq_true _ _).mp hempty
        rw [CertificateAuthority.maintained,
          CertificateAuthority.dropLapsedEntries_eq_self hentries,
          CertificateAuthority.dropLapsedRoutes_eq_self hroutes]
      -- nothing has lapsed the second time
      obtain ⟨events', hevents', hrun'⟩ :=
        deliverTo_both_run e inside (st.noteEvents events) hl' hid hleft
      rw [CertificateAuthority.entryEvents, CertificateAuthority.routeEvents,
        CertificateAuthority.lapsedEntries_maintained,
        CertificateAuthority.lapsedRoutes_maintained] at hevents'
      obtain rfl := List.Perm.eq_nil hevents'
      rw [hrun', CertificateAuthority.lapseLines, CertificateAuthority.lapsedEntries_maintained,
        CertificateAuthority.lapsedRoutes_maintained]
      rfl

end Engine

end RpkiAuthority
