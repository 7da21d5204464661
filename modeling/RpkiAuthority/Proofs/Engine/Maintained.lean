import RpkiAuthority.Engine.Maintenance
import RpkiAuthority.Proofs.Engine.Answers

/-!
# What the maintaining listeners do to an authority

Each of the two listeners looks at the authority that an event is about, works out what its
certificates no longer support, and takes that away. Nothing in this depends on the rest of the
running command, so it can be said as a function of the authority:
`CertificateAuthority.dropLapsedEntries` for ASPA entries and
`CertificateAuthority.dropLapsedRoutes` for suppressed announcements. Each notes an event if it took
something away, and this is all that it does, whatever the transaction has done to the authority
before (`Engine.act_aspa_run`, `Engine.act_roaAlerts_run`). Delivering an event about certificates
applies first the one and then the other, since listeners are served the last one first
(`Engine.deliverTo_standard_run`).
-/

namespace RpkiAuthority

namespace CertificateAuthority

/-! ### What lapses -/

/-- The ASPA entries for customers that the authority does not hold. -/
def lapsedEntries (ca : CertificateAuthority) : List (Asn × AspaProviders) :=
  (AspaConfiguration.splitHeld ca.aspa ca.certified).2

/-- The authority without these entries; the configuration is marked as changed if there are any. -/
def dropLapsedEntries (ca : CertificateAuthority) : CertificateAuthority :=
  if ca.lapsedEntries.isEmpty then ca
  else (ca.setAspa (AspaConfiguration.splitHeld ca.aspa ca.certified).1).markUpdated

/-- The suppressed announcements that share no address with what the authority holds. -/
def lapsedRoutes (ca : CertificateAuthority) : List AnnouncedRoute :=
  match ca.roaAlerts with
  | some alerts => alerts.outside ca.certified
  | none => []

/-- The authority without these announcements. -/
def dropLapsedRoutes (ca : CertificateAuthority) : CertificateAuthority :=
  if ca.lapsedRoutes.isEmpty then ca else ca.setAlerts (ca.alerts.retainOverlapping ca.certified)

/-- What certificates support, and nothing else. -/
def maintained (ca : CertificateAuthority) : CertificateAuthority :=
  ca.dropLapsedEntries.dropLapsedRoutes

/-- The events about what lapsed. -/
def lapseEvents (authority : VersionedId) (ca : CertificateAuthority) : List AuthorityEvent :=
  (if ca.lapsedEntries.isEmpty then [] else [.aspaEntriesRemoved authority ca.lapsedEntries]) ++
    if ca.dropLapsedEntries.lapsedRoutes.isEmpty then []
    else [.ignoredRoutesRemoved authority ca.dropLapsedEntries.lapsedRoutes]

/-- What is noted in the log about what lapsed. -/
def lapseLines (ca : CertificateAuthority) : List (LogLevel × String) :=
  if ca.lapsedEntries.isEmpty then []
  else [(.info, Maintenance.removalMessage ca.lapsedEntries.length ca.name)]

end CertificateAuthority

/-- The copy of an authority that was changed. -/
def Entry.changed (base : Option Nat) (ca : CertificateAuthority) : Entry CertificateAuthority :=
  ⟨base, some ca, true, false⟩

namespace Entry

@[simp] theorem working_changed (base : Option Nat) (ca : CertificateAuthority) :
    (changed base ca).working = some ca := rfl

@[simp] theorem pendingVersion_changed (base : Nat) (ca : CertificateAuthority) :
    (changed (some base) ca).pendingVersion = some (base + 1) := rfl

@[simp] theorem update_ofFound (ca : CertificateAuthority)
    (change : CertificateAuthority → CertificateAuthority) :
    (ofFound (some ca)).update change = changed (some ca.version) (change ca) := rfl

/-- The copy of an authority after a listener has taken away what lapsed, if anything did. -/
def lapsed (entry : Entry CertificateAuthority) (nothing : Bool) (ca : CertificateAuthority) :
    Entry CertificateAuthority :=
  if nothing then entry else { entry with working := some ca, dirty := true }

/-- The version that an authority gets if the transaction changes it. -/
def nextVersion (entry : Entry CertificateAuthority) : Nat :=
  (entry.base.map (· + 1)).getD 0

section Lapsed

variable {entry : Entry CertificateAuthority} {ca : CertificateAuthority}

theorem update_eq_lapsed (h : entry.working = some ca)
    (change : CertificateAuthority → CertificateAuthority) :
    entry.update change = entry.lapsed false (change ca) := by
  rw [update, h]
  rfl

theorem pendingVersion_lapsed (ca : CertificateAuthority) :
    (entry.lapsed false ca).pendingVersion = some entry.nextVersion := by
  cases h : entry.base <;> simp [lapsed, pendingVersion, nextVersion, hasChanges, h]

theorem working_lapsed (h : entry.working = some ca) {nothing : Bool} {ca' : CertificateAuthority}
    (hsame : nothing = true → ca' = ca) : (entry.lapsed nothing ca').working = some ca' := by
  cases nothing with
  | true => exact h.trans (congrArg some (hsame rfl).symm)
  | false => rfl

@[simp] theorem nextVersion_lapsed (nothing : Bool) (ca : CertificateAuthority) :
    (entry.lapsed nothing ca).nextVersion = entry.nextVersion := by
  cases nothing <;> rfl

/-- An authority that was changed before is changed in any case. -/
theorem lapsed_changed {base : Option Nat} {nothing : Bool} {ca' : CertificateAuthority}
    (hsame : nothing = true → ca' = ca) :
    (changed base ca).lapsed nothing ca' = changed base ca' := by
  cases nothing with
  | true => rw [hsame rfl]; rfl
  | false => rfl

end Lapsed

end Entry

variable {X : Interface}

/-- Writes lines to the log, one after the other. -/
def Process.say (context : LogContext) : List (LogLevel × String) → Process X Unit
  | [] => pure ()
  | (level, message) :: rest =>
    Process.step (.log ⟨level, context, message⟩) >>= fun _ => Process.say context rest

/-- Notes events of the innermost running command. -/
def RunState.noteEvents (st : RunState X) (events : List AuthorityEvent) : RunState X :=
  events.foldl RunState.noteEvent st

namespace RunState

variable (st : RunState X)

@[simp] theorem noteEvents_nil : st.noteEvents [] = st := rfl

theorem noteEvents_append (l r : List AuthorityEvent) :
    st.noteEvents (l ++ r) = (st.noteEvents l).noteEvents r :=
  List.foldl_append

theorem noteEvents_cons (event : AuthorityEvent) (l : List AuthorityEvent) :
    st.noteEvents (event :: l) = (st.noteEvent event).noteEvents l := rfl

end RunState

namespace CertificateAuthority

variable {ca : CertificateAuthority}

theorem dropLapsedEntries_eq_self (h : ca.lapsedEntries.isEmpty = true) :
    ca.dropLapsedEntries = ca := if_pos h

theorem dropLapsedRoutes_eq_self (h : ca.lapsedRoutes.isEmpty = true) :
    ca.dropLapsedRoutes = ca := if_pos h

/-- The event about ASPA entries that lapsed, if any did. -/
def entryEvents (authority : VersionedId) (ca : CertificateAuthority) : List AuthorityEvent :=
  if ca.lapsedEntries.isEmpty then [] else [.aspaEntriesRemoved authority ca.lapsedEntries]

/-- The event about suppressed announcements that lapsed, if any did. -/
def routeEvents (authority : VersionedId) (ca : CertificateAuthority) : List AuthorityEvent :=
  if ca.lapsedRoutes.isEmpty then [] else [.ignoredRoutesRemoved authority ca.lapsedRoutes]

end CertificateAuthority

namespace Engine

variable (e : Engine X) (inside : Nesting X) (st : RunState X) {event : AuthorityEvent}
  {id : AggregateId} {entry : Entry CertificateAuthority} {ca : CertificateAuthority}

/-! ### One listener at a time -/

theorem act_aspa_run (h : Maintenance.certificatesOf event = some id)
    (hworking : entry.working = some ca) :
    (e.act inside (Maintenance.aspa event)).run (st.withEntry id entry) =
      Process.say st.logContext ca.lapseLines >>= fun _ =>
        pure (.ok (), (st.noteEvents (ca.entryEvents ⟨id, entry.nextVersion⟩)).withEntry id
          (entry.lapsed ca.lapsedEntries.isEmpty ca.dropLapsedEntries)) := by
  rw [Maintenance.aspa, h]
  dsimp only
  rw [act_bind_run, act_get_run e inside st hworking, pure_bind]
  -- the listener asks for the lapsed entries, and does nothing more if there are none
  show (e.act inside (if ca.lapsedEntries.isEmpty then _ else _)).run _ = _
  rw [CertificateAuthority.lapseLines, CertificateAuthority.dropLapsedEntries,
    CertificateAuthority.entryEvents]
  by_cases hempty : ca.lapsedEntries.isEmpty = true
  · simp only [if_pos hempty, Process.say, pure_bind, Entry.lapsed]
    rfl
  · simp only [if_neg hempty, Process.say, bind_assoc, pure_bind]
    rw [act_bind_run, act_log_run, bind_assoc]
    refine bind_congr fun _ => ?_
    rw [pure_bind]
    dsimp only
    rw [act_bind_run, act_update_run e inside st hworking, pure_bind]
    dsimp only
    rw [Entry.update_eq_lapsed hworking, act_bind_run,
      act_versionedId_run e inside st (Entry.pendingVersion_lapsed _), pure_bind]
    dsimp only
    rw [act_record_run, RunState.noteEvent_withEntry, Bool.eq_false_iff.mpr hempty]
    rfl

theorem act_roaAlerts_run (h : Maintenance.certificatesOf event = some id)
    (hworking : entry.working = some ca) :
    (e.act inside (Maintenance.roaAlerts event)).run (st.withEntry id entry) =
      pure (.ok (), (st.noteEvents (ca.routeEvents ⟨id, entry.nextVersion⟩)).withEntry id
        (entry.lapsed ca.lapsedRoutes.isEmpty ca.dropLapsedRoutes)) := by
  rw [Maintenance.roaAlerts, h]
  dsimp only
  rw [act_bind_run, act_get_run e inside st hworking, pure_bind]
  dsimp only
  rw [CertificateAuthority.dropLapsedRoutes, CertificateAuthority.routeEvents,
    CertificateAuthority.lapsedRoutes]
  cases halerts : ca.roaAlerts with
  | none => rfl
  | some alerts =>
    dsimp only
    by_cases hempty : (alerts.outside ca.certified).isEmpty = true
    · simp only [if_pos hempty, Entry.lapsed]
      rfl
    · simp only [if_neg hempty]
      rw [act_bind_run, act_update_run e inside st hworking, pure_bind]
      dsimp only
      rw [Entry.update_eq_lapsed hworking, act_bind_run,
        act_versionedId_run e inside st (Entry.pendingVersion_lapsed _), pure_bind]
      dsimp only
      rw [act_record_run, RunState.noteEvent_withEntry, CertificateAuthority.alerts, halerts,
        Bool.eq_false_iff.mpr hempty]
      rfl

/-! ### Both of them -/

/-- **What the delivery of an event about certificates does**: the authority is maintained, and what
lapsed is noted. -/
theorem deliverTo_standard_run (base : Nat) (ca : CertificateAuthority)
    (h : Maintenance.certificatesOf event = some id) :
    (e.deliverTo inside event [Maintenance.aspa, Maintenance.roaAlerts]).run
        (st.withEntry id (.changed (some base) ca)) =
      Process.say st.logContext ca.lapseLines >>= fun _ =>
        pure (.ok (), (st.noteEvents (ca.lapseEvents ⟨id, base + 1⟩)).withEntry id
          (.changed (some base) ca.maintained)) := by
  rw [deliverTo, StateT.run_bind, act_aspa_run e inside st h (Entry.working_changed _ ca),
    bind_assoc]
  -- the second listener finds what the first one has left
  refine bind_congr fun _ => ?_
  rw [pure_bind]
  dsimp only
  rw [Entry.lapsed_changed CertificateAuthority.dropLapsedEntries_eq_self, deliverTo,
    StateT.run_bind, act_roaAlerts_run e inside _ h (Entry.working_changed _ _), pure_bind,
    Entry.lapsed_changed CertificateAuthority.dropLapsedRoutes_eq_self,
    CertificateAuthority.lapseEvents, RunState.noteEvents_append]
  rfl

end Engine

end RpkiAuthority
